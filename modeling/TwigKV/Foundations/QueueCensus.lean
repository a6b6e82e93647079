import Mathlib.Algebra.GroupWithZero.Nat
import Mathlib.Data.List.Perm.Basic
import Mathlib.Algebra.BigOperators.Group.List.Basic
import Mathlib.Algebra.BigOperators.Group.Finset.Piecewise
import Mathlib.Algebra.Order.BigOperators.Group.Finset
import Mathlib.Data.Fintype.Basic

/-! # Counting what sits in queues and in threads' hands

Resources that circulate between queues and threads are conserved when every step only moves them.
The bookkeeping is done with natural-number weights, so that a conservation law is one equation of
sums that linear arithmetic re-establishes after each step:

* **`dequeueAt q i`** — take one element out of a queue that promises no order between producers;
* **`weight w q`** — the total weight of a queue, with its reading on append and on `dequeueAt`;
* **`heldWeight w threads`** — the total weight in the hands of finitely many threads, and how it
  changes when one thread moves (`heldWeight_update`). -/

namespace TwigKV

variable {α β ι : Type*}

/-! ## Queues -/

/-- Take the element at position `i` out of the queue `q`: the element and what remains. A queue
shared by several producers may hand out any of its elements first, so `i` is not fixed to `0`. -/
def dequeueAt (q : List α) (i : ℕ) : Option (α × List α) :=
  (q[i]?).map fun a => (a, q.eraseIdx i)

/-- Reading of a successful dequeue. -/
theorem dequeueAt_eq_some {q q' : List α} {i : ℕ} {a : α} :
    dequeueAt q i = some (a, q') ↔ q[i]? = some a ∧ q.eraseIdx i = q' := by
  simp [dequeueAt]

/-- A dequeue removes exactly the element it returns. -/
theorem dequeueAt_perm {q q' : List α} {i : ℕ} {a : α} (h : dequeueAt q i = some (a, q')) :
    q.Perm (a :: q') := by
  obtain ⟨ha, rfl⟩ := dequeueAt_eq_some.mp h
  obtain ⟨hi, rfl⟩ := List.getElem?_eq_some_iff.mp ha
  exact (List.getElem_cons_eraseIdx_perm hi).symm

/-- The element a dequeue returns was in the queue. -/
theorem mem_of_dequeueAt {q q' : List α} {i : ℕ} {a : α} (h : dequeueAt q i = some (a, q')) :
    a ∈ q :=
  (dequeueAt_perm h).mem_iff.mpr List.mem_cons_self

/-- What remains after a dequeue was in the queue. -/
theorem mem_of_mem_dequeueAt {q q' : List α} {i : ℕ} {a b : α}
    (h : dequeueAt q i = some (a, q')) (hb : b ∈ q') : b ∈ q :=
  (dequeueAt_perm h).mem_iff.mpr (List.mem_cons_of_mem _ hb)

/-- A queue filled from a list of names loses the element of one name. -/
theorem dequeueAt_filterMap {f g : β → Option α} {names : List β} {r : β} {a : α}
    (hnodup : names.Nodup) (hr : r ∈ names) (hf : f r = some a) (hg : g r = none)
    (hsame : ∀ x, x ≠ r → g x = f x) :
    ∃ i, dequeueAt (names.filterMap f) i = some (a, names.filterMap g) := by
  obtain ⟨before, after, rfl⟩ := List.append_of_mem hr
  obtain ⟨hbefore, hafter⟩ : r ∉ before ∧ r ∉ after := by
    rw [List.nodup_append] at hnodup
    refine ⟨fun hmem => ?_, (List.nodup_cons.mp hnodup.2.1).1⟩
    exact hnodup.2.2 r hmem r List.mem_cons_self rfl
  have hcongr : ∀ l : List β, r ∉ l → l.filterMap g = l.filterMap f := by
    intro l hl
    refine List.filterMap_congr fun x hx => hsame x ?_
    rintro rfl
    exact hl hx
  refine ⟨(before.filterMap f).length, dequeueAt_eq_some.mpr ⟨?_, ?_⟩⟩
  · rw [List.filterMap_append, List.filterMap_cons_some hf, List.getElem?_append_right (le_refl _),
      Nat.sub_self, List.getElem?_cons_zero]
  · rw [List.filterMap_append, List.filterMap_cons_some hf,
      List.eraseIdx_append_of_length_le (le_refl _), Nat.sub_self, List.eraseIdx_cons_zero,
      List.filterMap_append, List.filterMap_cons_none hg, hcongr before hbefore,
      hcongr after hafter]

/-- The total weight of the elements of a queue. -/
def weight (w : α → ℕ) (q : List α) : ℕ := (q.map w).sum

@[simp] theorem weight_nil (w : α → ℕ) : weight w [] = 0 := rfl

@[simp] theorem weight_cons (w : α → ℕ) (a : α) (q : List α) :
    weight w (a :: q) = w a + weight w q := by
  simp [weight]

@[simp] theorem weight_append (w : α → ℕ) (p q : List α) :
    weight w (p ++ q) = weight w p + weight w q := by
  simp [weight]

/-- A dequeue splits off the weight of the element it returns. -/
theorem weight_of_dequeueAt (w : α → ℕ) {q q' : List α} {i : ℕ} {a : α}
    (h : dequeueAt q i = some (a, q')) : weight w q = w a + weight w q' := by
  rw [weight, ((dequeueAt_perm h).map w).sum_eq, List.map_cons, List.sum_cons, weight]

/-- A queue of weightless elements weighs nothing. -/
theorem weight_eq_zero {w : α → ℕ} {q : List α} (h : ∀ a ∈ q, w a = 0) : weight w q = 0 := by
  induction q with
  | nil => rfl
  | cons a q ih =>
    rw [weight_cons, h a List.mem_cons_self, ih fun b hb => h b (List.mem_cons_of_mem a hb)]

/-! ## Threads' hands -/

variable [Fintype ι]

/-- The total weight in the hands of the threads. -/
def heldWeight (w : β → ℕ) (threads : ι → β) : ℕ := ∑ t, w (threads t)

/-- When thread `t` moves to `x`, what it held leaves the sum and what it holds then enters it. -/
theorem sum_update_add {M : Type*} [AddCommMonoid M] [DecidableEq ι] (w : β → M) (threads : ι → β)
    (t : ι) (x : β) :
    ∑ i, w (Function.update threads t x i) + w (threads t) = ∑ i, w (threads i) + w x := by
  have hupd : ∑ i, w (Function.update threads t x i)
      = ∑ i, Function.update (w ∘ threads) t (w x) i := by
    rw [← Function.comp_update]
    rfl
  have hold : ∑ i, w (threads i) = ∑ i, (w ∘ threads) i := rfl
  rw [hupd, hold, Finset.sum_update_of_mem (Finset.mem_univ t),
    ← Finset.add_sum_erase Finset.univ (w ∘ threads) (Finset.mem_univ t),
    Finset.sdiff_singleton_eq_erase, Function.comp_apply, add_comm (w x), add_right_comm,
    add_comm (w (threads t))]

/-- When thread `t` moves to `x`, its old weight leaves the total and its new weight enters it. -/
theorem heldWeight_update [DecidableEq ι] (w : β → ℕ) (threads : ι → β) (t : ι) (x : β) :
    heldWeight w (Function.update threads t x) + w (threads t) = heldWeight w threads + w x :=
  sum_update_add w threads t x

/-- Pointwise smaller weights give a smaller total. -/
theorem heldWeight_mono {w w' : β → ℕ} (threads : ι → β) (h : ∀ x, w x ≤ w' x) :
    heldWeight w threads ≤ heldWeight w' threads :=
  Finset.sum_le_sum fun t _ => h (threads t)

/-- One thread with a strictly smaller weight makes the total strictly smaller. -/
theorem heldWeight_lt {w w' : β → ℕ} (threads : ι → β) (h : ∀ x, w x ≤ w' x) (t : ι)
    (ht : w (threads t) < w' (threads t)) : heldWeight w threads < heldWeight w' threads :=
  Finset.sum_lt_sum (fun i _ => h (threads i)) ⟨t, Finset.mem_univ t, ht⟩

/-- Idle threads hold nothing. -/
theorem heldWeight_const_zero {w : β → ℕ} {x : β} (h : w x = 0) :
    heldWeight w (fun _ : ι => x) = 0 :=
  Finset.sum_eq_zero fun _ _ => h

end TwigKV
