import Mathlib.Data.Finset.Card
import Mathlib.Data.Finset.Range

/-! # Counting in at a barrier

Participants `0..w - 1` each count themselves in at a shared counter when they come to a place, and
wait there until the counter has reached `w`. With `P` the states at or behind the place, the
counter is **`countWhere P w parties`**, the number of participants with `P`:

* `countWhere_update_same` — a participant that stays on its side of the place leaves the counter;
* `countWhere_update_enter` — one that comes to the place increases it;
* `all_of_full`, `full_of_all` — the counter has reached `w` exactly when all participants are
  there. -/

namespace TwigKV

variable {α : Type*} {P : α → Prop} [DecidablePred P] {w j : ℕ} {parties : ℕ → α} {a : α}

/-- The number of participants with `P`. -/
def countWhere (P : α → Prop) [DecidablePred P] (w : ℕ) (parties : ℕ → α) : ℕ :=
  ((Finset.range w).filter fun j => P (parties j)).card

/-- Counting when nobody has `P`. -/
theorem countWhere_eq_zero (h : ∀ j < w, ¬ P (parties j)) : countWhere P w parties = 0 :=
  Finset.card_eq_zero.mpr
    (Finset.filter_false_of_mem fun j hj => h j (Finset.mem_range.mp hj))

/-- A participant moves on the same side of the place. -/
theorem countWhere_update_same (h : P (parties j) ↔ P a) :
    countWhere P w (Function.update parties j a) = countWhere P w parties := by
  unfold countWhere
  congr 1
  refine Finset.filter_congr ?_
  intro i _
  by_cases hij : i = j
  · subst hij
    rw [Function.update_self]
    exact h.symm
  · rw [Function.update_of_ne hij]

/-- A participant comes to the place. -/
theorem countWhere_update_enter (hj : j < w) (hold : ¬ P (parties j)) (hnew : P a) :
    countWhere P w (Function.update parties j a) = countWhere P w parties + 1 := by
  have hinsert : ((Finset.range w).filter fun i => P (Function.update parties j a i))
      = insert j ((Finset.range w).filter fun i => P (parties i)) := by
    ext i
    rw [Finset.mem_insert, Finset.mem_filter, Finset.mem_filter, Finset.mem_range]
    by_cases hij : i = j
    · subst hij
      simp [hj, hnew]
    · simp [hij]
  unfold countWhere
  rw [hinsert, Finset.card_insert_of_notMem]
  intro hmem
  exact hold (Finset.mem_filter.mp hmem).2

/-- When the counter has reached the number of participants, all of them are there. -/
theorem all_of_full (h : w ≤ countWhere P w parties) (hj : j < w) : P (parties j) := by
  have hsub := Finset.filter_subset (fun i => P (parties i)) (Finset.range w)
  have heq := Finset.eq_of_subset_of_card_le hsub (by rw [Finset.card_range]; exact h)
  have hmem : j ∈ (Finset.range w).filter fun i => P (parties i) := by
    rw [heq]
    exact Finset.mem_range.mpr hj
  exact (Finset.mem_filter.mp hmem).2

/-- When all participants are there, the counter has reached their number. -/
theorem full_of_all (h : ∀ j < w, P (parties j)) : w ≤ countWhere P w parties := by
  unfold countWhere
  rw [Finset.filter_true_of_mem fun j hj => h j (Finset.mem_range.mp hj), Finset.card_range]

end TwigKV
