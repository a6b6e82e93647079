import Mathlib.Logic.Function.Basic
import Mathlib.Data.Nat.Notation
import Mathlib.Tactic.SplitIfs

/-! # Updating a table indexed twice

Queues between parties and copies that one party keeps of another's data are tables with two
indices. `update₂` replaces one entry of such a table. -/

namespace TwigKV

variable {ι κ α : Type*} [DecidableEq ι] [DecidableEq κ]

/-- Replace the entry at `s` and `m`. -/
def update₂ (f : ι → κ → α) (s : ι) (m : κ) (v : α) : ι → κ → α :=
  Function.update f s (Function.update (f s) m v)

/-- The entry replaced. -/
@[simp] theorem update₂_self (f : ι → κ → α) (s : ι) (m : κ) (v : α) :
    update₂ f s m v s m = v := by
  rw [update₂, Function.update_self, Function.update_self]

/-- The other entries. -/
theorem update₂_of_ne (f : ι → κ → α) {s s' : ι} {m m' : κ} (v : α) (h : s' ≠ s ∨ m' ≠ m) :
    update₂ f s m v s' m' = f s' m' := by
  rw [update₂]
  by_cases hs : s' = s
  · subst hs
    rw [Function.update_self, Function.update_of_ne (h.resolve_left fun h => h rfl)]
  · rw [Function.update_of_ne hs]

/-- An updated table entry by entry. -/
theorem update₂_apply (f : ι → κ → α) (s s' : ι) (m m' : κ) (v : α) :
    update₂ f s m v s' m' = if s' = s ∧ m' = m then v else f s' m' := by
  split_ifs with h
  · rw [h.1, h.2, update₂_self]
  · refine update₂_of_ne f v ?_
    by_cases hs : s' = s
    · exact Or.inr fun hm => h ⟨hs, hm⟩
    · exact Or.inl hs

end TwigKV
