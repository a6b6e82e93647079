import Mathlib.Order.Lattice
import Mathlib.Data.List.Basic

/-! # Sorting and ordered maps of buckets

* **`stdSort`** — `std::sort` with a comparison function: a permutation of the list in which no
  element is greater than an earlier one.
* **`BucketMap`** — a `std::map` whose values are vectors, filled by `map[key].push_back(value)` and
  read in ascending key order. Its contents are, up to order, the pairs pushed
  (`contents_pushAll_perm`). -/

namespace TwigKV

/-! ## Sorting -/

/-- `std::sort` with the comparison `comp`: `comp x y` puts `x` before `y`. Elements that compare
equal keep their order, one of the orders the standard allows. -/
def stdSort {α : Type*} (comp : α → α → Bool) (l : List α) : List α :=
  l.mergeSort fun x y => !comp y x

section StdSort

variable {α β : Type*}

/-- Sorting permutes. -/
theorem stdSort_perm (comp : α → α → Bool) (l : List α) : (stdSort comp l).Perm l :=
  List.mergeSort_perm _ _

/-- Sorting one element. -/
@[simp] theorem stdSort_singleton (comp : α → α → Bool) (x : α) : stdSort comp [x] = [x] :=
  List.mergeSort_singleton x

/-- Sorting two elements. -/
theorem stdSort_pair (comp : α → α → Bool) (x y : α) :
    stdSort comp [x, y] = if comp y x then [y, x] else [x, y] := by
  rw [stdSort, List.mergeSort]
  simp only [List.MergeSort.Internal.splitInTwo_fst, List.MergeSort.Internal.splitInTwo_snd,
    List.length_cons, List.length_nil]
  simp only [Nat.reduceAdd, Nat.reduceDiv, List.take_succ_cons, List.take_zero, List.drop_succ_cons,
    List.drop_zero, List.mergeSort_singleton]
  cases hcomp : comp y x with
  | true => simp [hcomp]
  | false => simp [hcomp]

/-- Sorting by a measure in descending order puts no smaller measure first. -/
theorem stdSort_pairwise_of_measure [LinearOrder β] (measure : α → β) (comp : α → α → Bool)
    (hcomp : ∀ x y, comp x y = decide (measure y < measure x)) (l : List α) :
    (stdSort comp l).Pairwise fun x y => measure y ≤ measure x := by
  have hle : ∀ x y, (!comp y x) = decide (measure y ≤ measure x) := fun x y => by
    rw [hcomp, ← decide_not, decide_eq_decide, not_lt]
  have hsorted : (stdSort comp l).Pairwise fun x y => !comp y x := by
    refine List.pairwise_mergeSort (fun x y z hxy hyz => ?_) (fun x y => ?_) l
    · simp only [hle, decide_eq_true_eq] at hxy hyz ⊢
      exact le_trans hyz hxy
    · simp only [hle, Bool.or_eq_true, decide_eq_true_eq]
      exact le_total _ _
  exact hsorted.imp fun {x y} h => by simpa only [hle, decide_eq_true_eq] using h

end StdSort

/-! ## Ordered maps of buckets -/

section Buckets

variable {κ α : Type*}

/-- Append a value to the bucket of a key, keeping the association list in ascending key order. -/
def insertInOrder [LT κ] [DecidableLT κ] [DecidableEq κ] (key : κ) (value : α) :
    List (κ × List α) → List (κ × List α)
  | [] => [(key, [value])]
  | b :: bs =>
      if key < b.1 then (key, [value]) :: b :: bs
      else if key = b.1 then (b.1, b.2 ++ [value]) :: bs
      else b :: insertInOrder key value bs

/-- The keys after an insertion are the old ones and the inserted one. -/
theorem mem_insertInOrder [LT κ] [DecidableLT κ] [DecidableEq κ] {key : κ} {value : α}
    {bs : List (κ × List α)} {b : κ × List α} (h : b ∈ insertInOrder key value bs) :
    b.1 = key ∨ ∃ b' ∈ bs, b'.1 = b.1 := by
  induction bs with
  | nil =>
      rw [insertInOrder, List.mem_singleton] at h
      exact Or.inl (by rw [h])
  | cons b₀ bs ih =>
      rw [insertInOrder] at h
      split_ifs at h with hlt heq
      · rcases List.mem_cons.mp h with rfl | hmem
        · exact Or.inl rfl
        · exact Or.inr ⟨b, hmem, rfl⟩
      · rcases List.mem_cons.mp h with rfl | hmem
        · exact Or.inl heq.symm
        · exact Or.inr ⟨b, List.mem_cons_of_mem _ hmem, rfl⟩
      · rcases List.mem_cons.mp h with rfl | hmem
        · exact Or.inr ⟨b, List.mem_cons_self, rfl⟩
        · rcases ih hmem with hkey | ⟨b', hb', hk⟩
          · exact Or.inl hkey
          · exact Or.inr ⟨b', List.mem_cons_of_mem _ hb', hk⟩

/-- Insertion keeps the keys strictly ascending. -/
theorem insertInOrder_pairwise [LinearOrder κ] {key : κ} {value : α} {bs : List (κ × List α)}
    (h : bs.Pairwise fun b b' => b.1 < b'.1) :
    (insertInOrder key value bs).Pairwise fun b b' => b.1 < b'.1 := by
  induction bs with
  | nil => exact List.pairwise_singleton _ _
  | cons b₀ bs ih =>
      obtain ⟨hhead, htail⟩ := List.pairwise_cons.mp h
      rw [insertInOrder]
      split_ifs with hlt heq
      · refine List.pairwise_cons.mpr ⟨fun b hb => ?_, h⟩
        rcases List.mem_cons.mp hb with rfl | hmem
        · exact hlt
        · exact lt_trans hlt (hhead b hmem)
      · exact List.pairwise_cons.mpr ⟨hhead, htail⟩
      · refine List.pairwise_cons.mpr ⟨fun b hb => ?_, ih htail⟩
        rcases mem_insertInOrder hb with hkey | ⟨b', hb', hk⟩
        · rw [hkey]
          exact lt_of_le_of_ne (not_lt.mp hlt) (Ne.symm heq)
        · rw [← hk]
          exact hhead b' hb'

/-- A map from keys to buckets of values, in ascending key order. -/
structure BucketMap (κ α : Type*) [LT κ] where
  /-- The buckets with their keys. -/
  buckets : List (κ × List α)
  /-- Every key has one bucket and the buckets stand in ascending order. -/
  ascending : buckets.Pairwise fun b b' => b.1 < b'.1

namespace BucketMap

variable [LinearOrder κ]

/-- The empty map. -/
def empty : BucketMap κ α := ⟨[], List.Pairwise.nil⟩

/-- `map[key].push_back(value)`. -/
def pushBack (m : BucketMap κ α) (key : κ) (value : α) : BucketMap κ α :=
  ⟨insertInOrder key value m.buckets, insertInOrder_pairwise m.ascending⟩

/-- A sequence of pushes. -/
def pushAll (m : BucketMap κ α) (l : List (κ × α)) : BucketMap κ α :=
  l.foldl (fun m e => m.pushBack e.1 e.2) m

/-- The pairs in a map, in the order a traversal meets them. -/
def contents (m : BucketMap κ α) : List (κ × α) :=
  m.buckets.flatMap fun b => b.2.map fun value => (b.1, value)

/-- A push adds its pair to the contents. -/
theorem contents_pushBack_perm (m : BucketMap κ α) (key : κ) (value : α) :
    (m.pushBack key value).contents.Perm ((key, value) :: m.contents) := by
  simp only [contents, pushBack]
  induction m.buckets with
  | nil => exact List.Perm.refl _
  | cons b₀ bs ih =>
      simp only [insertInOrder]
      split_ifs with hlt heq
      · exact List.Perm.refl _
      · simp only [List.flatMap_cons, List.map_append, List.map_cons, List.map_nil]
        rw [List.append_assoc, heq]
        exact List.perm_middle
      · simp only [List.flatMap_cons]
        exact (ih.append_left _).trans List.perm_middle

/-- Pushing a list of pairs adds them to the contents. -/
theorem contents_pushAll_perm (m : BucketMap κ α) (l : List (κ × α)) :
    (m.pushAll l).contents.Perm (l ++ m.contents) := by
  induction l generalizing m with
  | nil => exact List.Perm.refl _
  | cons e l ih =>
      have hstep : (m.pushAll (e :: l)) = (m.pushBack e.1 e.2).pushAll l := rfl
      rw [hstep]
      calc ((m.pushBack e.1 e.2).pushAll l).contents.Perm
            (l ++ (m.pushBack e.1 e.2).contents) := ih _
        _ |>.Perm (l ++ e :: m.contents) :=
            (contents_pushBack_perm m e.1 e.2).append_left l
        _ |>.Perm (e :: (l ++ m.contents)) := List.perm_middle

/-- The pairs of a map built from nothing are the pairs pushed. -/
theorem contents_pushAll_empty_perm (l : List (κ × α)) :
    ((empty : BucketMap κ α).pushAll l).contents.Perm l := by
  have h := contents_pushAll_perm (empty : BucketMap κ α) l
  have hempty : (empty : BucketMap κ α).contents = [] := rfl
  rwa [hempty, List.append_nil] at h

end BucketMap

end Buckets

end TwigKV
