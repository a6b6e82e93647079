import Mathlib.Data.List.TakeWhile
import Mathlib.Algebra.Ring.Int.Defs
import Mathlib.Algebra.Ring.Nat
import Mathlib.Data.Nat.Notation

/-! # Decimal text

The C++ conversions between text and integers: `std::stoi` and `std::stoull` read an optional sign
and a run of digits after leading white space and throw outside their type's range, `std::to_string`
is `toString`. Reading back what `toString` wrote gives the number (`stoi_toString`,
`stoull_toString`), so distinct numbers have distinct texts. -/

namespace TwigKV

/-- `std::isspace` in the "C" locale. -/
def isSpace (c : Char) : Bool :=
  c = ' ' ∨ (9 ≤ c.toNat ∧ c.toNat ≤ 13)

/-- The sign (`true` for a minus) and the characters after it. -/
def splitSign : List Char → Bool × List Char
  | '-' :: cs => (true, cs)
  | '+' :: cs => (false, cs)
  | cs => (false, cs)

/-- What `strtol` reads: the sign and the value of the leading digits, `none` without a digit. -/
def scanInteger (text : String) : Option (Bool × ℕ) :=
  let (negative, rest) := splitSign (text.toList.dropWhile isSpace)
  let digits := rest.takeWhile Char.isDigit
  if digits = [] then none else some (negative, Nat.ofDigitChars 10 digits 0)

/-- `std::stoi`: `none` where it throws. -/
def stoi (text : String) : Option ℤ :=
  (scanInteger text).bind fun (negative, magnitude) =>
    let value : ℤ := if negative then -magnitude else magnitude
    if -2 ^ 31 ≤ value ∧ value < 2 ^ 31 then some value else none

/-- `std::stoull`: `none` where it throws. A minus sign negates modulo `2 ^ 64`. -/
def stoull (text : String) : Option UInt64 :=
  (scanInteger text).bind fun (negative, magnitude) =>
    if magnitude < 2 ^ 64 then
      some (if negative then -UInt64.ofNat magnitude else UInt64.ofNat magnitude)
    else none

/-- A digit is not white space. -/
theorem isSpace_of_isDigit {c : Char} (h : c.isDigit) : isSpace c = false := by
  have hlow : 48 ≤ c.toNat := by
    simp only [Char.isDigit, Bool.and_eq_true, decide_eq_true_eq] at h
    exact h.1
  rw [isSpace, decide_eq_false_iff_not]
  rintro (rfl | ⟨-, hhigh⟩)
  · exact absurd h (by decide)
  · omega

/-- A text that starts with a digit has no sign. -/
theorem splitSign_of_isDigit {c : Char} (cs : List Char) (h : c.isDigit) :
    splitSign (c :: cs) = (false, c :: cs) := by
  unfold splitSign
  split
  · next heq =>
    rw [(List.cons.inj heq).1] at h
    exact absurd h (by decide)
  · next heq =>
    rw [(List.cons.inj heq).1] at h
    exact absurd h (by decide)
  · rfl

/-- A canonical decimal text scans to its number. -/
@[simp] theorem scanInteger_toString (n : ℕ) : scanInteger (toString n) = some (false, n) := by
  have hdigits : ∀ c ∈ Nat.toDigits 10 n, c.isDigit := fun c hc =>
    Nat.isDigit_of_mem_toDigits (by decide) (by decide) hc
  have htake : (Nat.toDigits 10 n).takeWhile Char.isDigit = Nat.toDigits 10 n :=
    List.takeWhile_eq_self_iff.mpr hdigits
  obtain ⟨c, cs, hcons⟩ : ∃ c cs, Nat.toDigits 10 n = c :: cs :=
    List.exists_cons_of_ne_nil Nat.toDigits_ne_nil
  have hc : c.isDigit := hdigits c (by rw [hcons]; exact List.mem_cons_self)
  have hdrop : (Nat.toDigits 10 n).dropWhile isSpace = Nat.toDigits 10 n := by
    rw [hcons, List.dropWhile_cons_of_neg (by rw [isSpace_of_isDigit hc]; decide)]
  have hsign : splitSign (Nat.toDigits 10 n) = (false, Nat.toDigits 10 n) := by
    rw [hcons, splitSign_of_isDigit cs hc]
  rw [scanInteger, Nat.toString_eq_repr, Nat.toList_repr, hdrop, hsign]
  simp only [htake]
  rw [if_neg Nat.toDigits_ne_nil, Nat.ofDigitChars_ten_toDigits]

/-- `stoi` reads back a number in the range of `int`. -/
theorem stoi_toString {n : ℕ} (h : n < 2 ^ 31) : stoi (toString n) = some (n : ℤ) := by
  rw [stoi, scanInteger_toString, Option.bind_some]
  simp only [Bool.false_eq_true, if_false]
  rw [if_pos ⟨by omega, by omega⟩]

/-- `stoi` throws on a number outside the range of `int`. -/
theorem stoi_toString_eq_none {n : ℕ} (h : 2 ^ 31 ≤ n) : stoi (toString n) = none := by
  rw [stoi, scanInteger_toString, Option.bind_some]
  simp only [Bool.false_eq_true, if_false]
  rw [if_neg (by omega)]

/-- What `stoi` reads from a canonical text. -/
theorem eq_of_stoi_toString {n : ℕ} {value : ℤ} (h : stoi (toString n) = some value) :
    value = n ∧ n < 2 ^ 31 := by
  by_cases hn : n < 2 ^ 31
  · rw [stoi_toString hn, Option.some.injEq] at h
    exact ⟨h.symm, hn⟩
  · rw [stoi_toString_eq_none (Nat.not_lt.mp hn)] at h
    cases h

/-- `stoull` reads back a 64-bit number. -/
theorem stoull_toString {n : ℕ} (h : n < 2 ^ 64) :
    stoull (toString n) = some (UInt64.ofNat n) := by
  rw [stoull, scanInteger_toString, Option.bind_some]
  simp only [Bool.false_eq_true, if_false]
  rw [if_pos h]

/-- Distinct numbers have distinct texts. -/
theorem toString_injective : Function.Injective (toString : ℕ → String) := by
  intro m n h
  have hscan := congrArg scanInteger h
  rw [scanInteger_toString, scanInteger_toString, Option.some.injEq, Prod.mk.injEq] at hscan
  exact hscan.2

end TwigKV
