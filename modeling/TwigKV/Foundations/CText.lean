import Mathlib.Data.List.TakeWhile
import Mathlib.Data.Nat.Notation

/-! # C strings

A text that is read through a pointer to characters ends at its first NUL. -/

namespace TwigKV

/-- The NUL character. -/
def nul : Char := Char.ofNat 0

/-- What `std::string(text.cStr())` holds: the text up to its first NUL. -/
def cStr (text : String) : String := String.ofList (text.toList.takeWhile fun c => c ≠ nul)

/-- A text without a NUL. -/
def NulFree (text : String) : Prop := ∀ c ∈ text.toList, c ≠ nul

instance decidableNulFree (text : String) : Decidable (NulFree text) :=
  List.decidableBAll (fun c => c ≠ nul) text.toList

/-- A text without a NUL is read whole. -/
theorem cStr_of_nulFree {text : String} (h : NulFree text) : cStr text = text := by
  have htake : text.toList.takeWhile (fun c => decide (c ≠ nul)) = text.toList :=
    List.takeWhile_eq_self_iff.mpr fun c hc => decide_eq_true (h c hc)
  rw [cStr, htake, String.ofList_toList]

/-- A text is read whole only without a NUL. -/
theorem cStr_eq_self_iff {text : String} : cStr text = text ↔ NulFree text := by
  refine ⟨fun h c hc => ?_, cStr_of_nulFree⟩
  rw [← h, cStr, String.toList_ofList] at hc
  exact of_decide_eq_true (List.all_eq_true.mp List.all_takeWhile c hc)

/-- A canonical decimal text has no NUL. -/
theorem nulFree_toString (n : ℕ) : NulFree (toString n) := by
  intro c hc
  rw [Nat.toString_eq_repr, Nat.toList_repr] at hc
  have hdigit := Nat.isDigit_of_mem_toDigits (by decide) (by decide) hc
  rintro rfl
  exact absurd hdigit (by decide)

end TwigKV
