import Mathlib.Algebra.BigOperators.Group.List.Basic
import Mathlib.Algebra.GroupWithZero.Nat
import Mathlib.Data.Nat.Notation

/-! # Prefix sums

`prefixSum l i` is the sum of the first `i` elements of a list. The sum over a range of positions is
what one prefix sum has more than another (`prefixSum_add_sum_range`). -/

namespace TwigKV

variable {M : Type*} [AddCommMonoid M]

/-- The sum of the first `i` elements. -/
def prefixSum (l : List M) (i : ℕ) : M := (l.take i).sum

/-- The element at a position, `0` from the end on. -/
def elementAt (l : List M) (i : ℕ) : M := l.getD i 0

/-- No elements. -/
@[simp] theorem prefixSum_zero (l : List M) : prefixSum l 0 = 0 := by
  rw [prefixSum, List.take_zero, List.sum_nil]

/-- One more element. -/
theorem prefixSum_succ (l : List M) (i : ℕ) :
    prefixSum l (i + 1) = prefixSum l i + elementAt l i := by
  rw [prefixSum, List.take_add_one, List.sum_append, ← prefixSum, elementAt,
    List.getD_eq_getElem?_getD]
  cases l[i]? with
  | none => rw [Option.toList_none, List.sum_nil, Option.getD_none]
  | some x => rw [Option.toList_some, List.sum_singleton, Option.getD_some]

/-- All elements. -/
theorem prefixSum_of_length_le {l : List M} {i : ℕ} (h : l.length ≤ i) : prefixSum l i = l.sum := by
  rw [prefixSum, List.take_of_length_le h]

/-- The sum over the positions from `i` up to `j`. -/
theorem prefixSum_add_sum_range (l : List M) {i j : ℕ} (h : i ≤ j) :
    prefixSum l i + ((l.take j).drop i).sum = prefixSum l j := by
  have hsplit := List.take_append_drop i (l.take j)
  rw [List.take_take, Nat.min_eq_left h] at hsplit
  rw [prefixSum, prefixSum, ← List.sum_append, hsplit]

/-- Prefix sums of natural numbers grow. -/
theorem prefixSum_mono (l : List ℕ) {i j : ℕ} (h : i ≤ j) : prefixSum l i ≤ prefixSum l j := by
  rw [← prefixSum_add_sum_range l h]
  exact Nat.le_add_right _ _

/-- And stay below the sum. -/
theorem prefixSum_le_sum (l : List ℕ) (i : ℕ) : prefixSum l i ≤ l.sum := by
  rcases Nat.le_total i l.length with h | h
  · rw [← prefixSum_of_length_le (Nat.le_refl l.length)]
    exact prefixSum_mono l h
  · exact Nat.le_of_eq (prefixSum_of_length_le h)

end TwigKV
