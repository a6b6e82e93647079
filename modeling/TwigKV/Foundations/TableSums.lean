import TwigKV.Foundations.DoubleUpdate
import Mathlib.Algebra.BigOperators.Group.Finset.Basic
import Mathlib.Algebra.BigOperators.Group.Finset.Piecewise
import Mathlib.Algebra.GroupWithZero.Nat
import Mathlib.Algebra.Order.BigOperators.Group.Finset

/-! # Totals of tables

The total weight of the entries `0..n - 1` of a table, and of the first rows and columns of a table
indexed twice, when one entry is replaced: what the entry weighed leaves the total and what it
weighs then enters it. -/

namespace TwigKV

variable {α : Type*}

/-- The total weight of the first `n` entries of a table. -/
def tableWeight (w : α → ℕ) (n : ℕ) (table : ℕ → α) : ℕ := ∑ i ∈ Finset.range n, w (table i)

/-- One entry is replaced. -/
theorem tableWeight_update (w : α → ℕ) {n : ℕ} (table : ℕ → α) {i : ℕ} (hi : i < n) (x : α) :
    tableWeight w n (Function.update table i x) + w (table i) = tableWeight w n table + w x := by
  have hmem : i ∈ Finset.range n := Finset.mem_range.mpr hi
  have hrest : ∑ j ∈ (Finset.range n).erase i, w (Function.update table i x j)
      = ∑ j ∈ (Finset.range n).erase i, w (table j) := by
    refine Finset.sum_congr rfl ?_
    intro j hj
    rw [Function.update_of_ne (Finset.ne_of_mem_erase hj)]
  unfold tableWeight
  rw [← Finset.add_sum_erase _ _ hmem, ← Finset.add_sum_erase _ (fun j => w (table j)) hmem, hrest,
    Function.update_self]
  omega

/-- Tables whose entries weigh the same. -/
theorem tableWeight_congr {w w' : α → ℕ} {n : ℕ} {table table' : ℕ → α}
    (h : ∀ i < n, w (table i) = w' (table' i)) : tableWeight w n table = tableWeight w' n table' :=
  Finset.sum_congr rfl fun i hi => h i (Finset.mem_range.mp hi)

end TwigKV
