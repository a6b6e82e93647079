import Mathlib.Data.List.Basic
import Mathlib.Data.List.Perm.Basic
import Mathlib.Data.List.Range
import Mathlib.Logic.Function.Basic
import Mathlib.Order.Monotone.Basic
import Mathlib.Algebra.Order.Group.Nat

/-! # Intervals and pieces

Boundaries `f 0 ≤ f 1 ≤ … ≤ f n` in a linear order cut the range from `f 0` to `f n` into the
intervals `f s ≤ x < f (s + 1)`. Every point of the range lies in one of them (`exists_interval`)
and in no other (`interval_unique`).

Boundaries `f 0 ≤ f 1 ≤ … ≤ f n` cut a list into the pieces from `f i` up to `f (i + 1)`. Put
together again they are what the list has before the last boundary (`flatten_pieces`). An element
added to a list goes to the piece in which the list ends (`pieces_append_singleton`), so the pieces
can be made in one pass. The even boundaries of a length cut it into `n` pieces whose lengths differ
by one at most, the longer ones first (`length_evenPiece`).

Where workers have such pieces, what they have done together grows by what one of them does
(`flatMap_update_perm`); and if each of them has gone through its piece `k` times, they have gone
through all of the list `k` times (`flatMap_replicate_perm`). -/

namespace TwigKV

/-! ## Consecutive intervals -/

section Intervals

variable {α : Type*} [LinearOrder α] {f : ℕ → α} {x : α}

/-- A point below the last boundary lies in some interval. -/
theorem exists_interval {n : ℕ} (h0 : f 0 ≤ x) (hn : x < f n) :
    ∃ s, s < n ∧ f s ≤ x ∧ x < f (s + 1) := by
  induction n with
  | zero => exact absurd hn (not_lt.mpr h0)
  | succ n ih =>
      rcases lt_or_ge x (f n) with hlt | hge
      · obtain ⟨s, hs, hin⟩ := ih hlt
        exact ⟨s, Nat.lt_succ_of_lt hs, hin⟩
      · exact ⟨n, Nat.lt_succ_self n, hge, hn⟩

/-- With ascending boundaries, a point lies in one interval only. -/
theorem interval_unique (hf : Monotone f) {s t : ℕ} (hs : f s ≤ x ∧ x < f (s + 1))
    (ht : f t ≤ x ∧ x < f (t + 1)) : s = t := by
  rcases Nat.lt_trichotomy s t with hlt | heq | hgt
  · -- the upper end of the earlier interval lies at or below the later one
    exact absurd (lt_of_lt_of_le hs.2 (hf hlt)) (not_lt.mpr ht.1)
  · exact heq
  · exact absurd (lt_of_lt_of_le ht.2 (hf hgt)) (not_lt.mpr hs.1)

end Intervals

/-! ## Pieces -/

variable {α : Type*} {f : ℕ → ℕ}

/-- The elements from position `b` up to `e`, `none` where there is no such range in the list. -/
def subrange? (l : List α) (b e : ℕ) : Option (List α) :=
  if b ≤ e ∧ e ≤ l.length then some ((l.take e).drop b) else none

/-- The piece from `f i` up to `f (i + 1)`. -/
def piece (f : ℕ → ℕ) (l : List α) (i : ℕ) : List α := (l.take (f (i + 1))).drop (f i)

/-- The first `n` pieces. -/
def pieces (f : ℕ → ℕ) (n : ℕ) (l : List α) : List (List α) := (List.range n).map (piece f l)

/-- A piece inside the list is the range between its boundaries. -/
theorem subrange?_eq_piece (hf : Monotone f) {l : List α} {i : ℕ} (h : f (i + 1) ≤ l.length) :
    subrange? l (f i) (f (i + 1)) = some (piece f l i) :=
  if_pos ⟨hf (Nat.le_succ i), h⟩

/-- The elements outside a range: those before it and those behind it. -/
theorem map_fst_filter_zipIdx {b e : ℕ} (h : b ≤ e) (l : List α) (k : ℕ) :
    ((l.zipIdx k).filter fun entry => entry.2 < b ∨ e ≤ entry.2).map Prod.fst
      = l.take (b - k) ++ l.drop (e - k) := by
  induction l generalizing k with
  | nil => rw [List.take_nil, List.drop_nil]; rfl
  | cons a l ih =>
      rw [List.zipIdx_cons, List.filter_cons]
      rcases Nat.lt_or_ge k b with hbefore | hb
      · have htake : b - k = b - (k + 1) + 1 := by omega
        have hdrop : e - k = e - (k + 1) + 1 := by omega
        rw [if_pos (by simp [hbefore]), List.map_cons, ih, htake, hdrop]
        rfl
      · have hnone := Nat.sub_eq_zero_of_le hb
        have hnone' := Nat.sub_eq_zero_of_le (Nat.le_succ_of_le hb)
        rcases Nat.lt_or_ge k e with hinside | he
        · have hdrop : e - k = e - (k + 1) + 1 := by omega
          rw [if_neg (by simp [Nat.not_lt.mpr hb, hinside]), ih, hnone, hnone', hdrop]
          rfl
        · rw [if_pos (by simp [he]), List.map_cons, ih, hnone, hnone', Nat.sub_eq_zero_of_le he,
            Nat.sub_eq_zero_of_le (Nat.le_succ_of_le he)]
          rfl

/-- The length of a piece. -/
theorem length_piece (f : ℕ → ℕ) (l : List α) (i : ℕ) :
    (piece f l i).length = min (f (i + 1)) l.length - f i := by
  rw [piece, List.length_drop, List.length_take]

/-- A piece from the end of the list on is empty. -/
theorem piece_of_length_le {l : List α} {i : ℕ} (h : l.length ≤ f i) : piece f l i = [] := by
  rw [piece, List.drop_eq_nil_iff, List.length_take]
  exact Nat.le_trans (Nat.min_le_right _ _) h

/-- The pieces by their position. -/
theorem getElem?_pieces (f : ℕ → ℕ) (n : ℕ) (l : List α) (i : ℕ) :
    (pieces f n l)[i]? = if i < n then some (piece f l i) else none := by
  rw [pieces, List.getElem?_map]
  split
  · next h => rw [List.getElem?_range h, Option.map_some]
  · next h =>
    rw [List.getElem?_eq_none (by rw [List.length_range]; exact Nat.not_lt.mp h), Option.map_none]

/-- The empty list has empty pieces. -/
theorem pieces_nil (f : ℕ → ℕ) (n : ℕ) : pieces f n ([] : List α) = List.replicate n [] := by
  rw [pieces, List.eq_replicate_iff]
  refine ⟨by rw [List.length_map, List.length_range], fun p hp => ?_⟩
  obtain ⟨i, -, rfl⟩ := List.mem_map.mp hp
  rw [piece, List.take_nil, List.drop_nil]

/-- The pieces make up the list as far as the last boundary. -/
theorem flatten_pieces (hf : Monotone f) (h0 : f 0 = 0) (n : ℕ) (l : List α) :
    (pieces f n l).flatten = l.take (f n) := by
  induction n with
  | zero => rw [pieces, List.range_zero, h0]; rfl
  | succ n ih =>
      rw [pieces, List.range_succ, List.map_append, List.flatten_append, ← pieces, ih]
      have htake : l.take (f n) = (l.take (f (n + 1))).take (f n) := by
        rw [List.take_take, Nat.min_eq_left (hf (Nat.le_succ n))]
      rw [htake, List.map_singleton, List.flatten_singleton, piece, List.take_append_drop]

/-- An element added to the list is added to the piece in which the list ends. -/
theorem piece_append_singleton (hf : Monotone f) {l : List α} {i : ℕ} (hi : f i ≤ l.length)
    (hend : l.length < f (i + 1)) (a : α) (j : ℕ) :
    piece f (l ++ [a]) j = if i = j then piece f l j ++ [a] else piece f l j := by
  rw [piece, piece]
  rcases Nat.lt_trichotomy i j with hlt | rfl | hgt
  · -- a later piece is empty before and after
    have hj : l.length < f j := Nat.lt_of_lt_of_le hend (hf hlt)
    rw [if_neg (Nat.ne_of_lt hlt), ← piece, ← piece, piece_of_length_le (Nat.le_of_lt hj),
      piece_of_length_le (by rw [List.length_append, List.length_singleton]; exact hj)]
  · rw [if_pos rfl, List.take_of_length_le (Nat.le_of_lt hend),
      List.take_of_length_le (by rw [List.length_append, List.length_singleton]; exact hend),
      List.drop_append_of_le_length hi]
  · rw [if_neg (Nat.ne_of_gt hgt),
      List.take_append_of_le_length (Nat.le_trans (hf hgt) hi)]

/-- The pieces made in one pass. -/
theorem pieces_append_singleton (hf : Monotone f) {l : List α} {i n : ℕ} (hi : f i ≤ l.length)
    (hend : l.length < f (i + 1)) (a : α) :
    pieces f n (l ++ [a]) = (pieces f n l).modify i (· ++ [a]) := by
  apply List.ext_getElem?
  intro j
  rw [List.getElem?_modify, getElem?_pieces, getElem?_pieces, piece_append_singleton hf hi hend]
  by_cases hj : j < n
  · rw [if_pos hj, if_pos hj]
    rfl
  · rw [if_neg hj, if_neg hj]
    rfl

/-! ## Even pieces -/

/-- The boundaries of `n` even pieces of a length. -/
def evenBoundary (length n i : ℕ) : ℕ := i * (length / n) + min i (length % n)

/-- The first boundary. -/
theorem evenBoundary_zero (length n : ℕ) : evenBoundary length n 0 = 0 := by
  rw [evenBoundary, Nat.zero_mul, Nat.zero_min]

/-- The next boundary: the first `length % n` pieces have one element more. -/
theorem evenBoundary_succ (length n i : ℕ) : evenBoundary length n (i + 1)
    = evenBoundary length n i + (length / n + if i < length % n then 1 else 0) := by
  rw [evenBoundary, evenBoundary, Nat.succ_mul]
  split
  · next h => rw [Nat.min_eq_left h, Nat.min_eq_left (Nat.le_of_lt h)]; omega
  · next h =>
    have hle := Nat.not_lt.mp h
    rw [Nat.min_eq_right (Nat.le_succ_of_le hle), Nat.min_eq_right hle]
    omega

/-- The boundaries ascend. -/
theorem evenBoundary_mono (length n : ℕ) : Monotone (evenBoundary length n) := by
  apply monotone_nat_of_le_succ
  intro i
  rw [evenBoundary_succ]
  exact Nat.le_add_right _ _

/-- The last boundary is the length. -/
theorem evenBoundary_self {length n : ℕ} (hn : 1 ≤ n) : evenBoundary length n n = length := by
  rw [evenBoundary, Nat.min_eq_right (Nat.le_of_lt (Nat.mod_lt _ hn)), Nat.div_add_mod]

/-- No boundary lies behind the end. -/
theorem evenBoundary_le {length n i : ℕ} (hi : i ≤ n) (hn : 1 ≤ n) :
    evenBoundary length n i ≤ length :=
  Nat.le_trans (evenBoundary_mono length n hi) (Nat.le_of_eq (evenBoundary_self hn))

/-- As long as a piece begins before the end it is not empty: either all pieces have an element, or
the first `length % n = length` of them. -/
theorem evenBoundary_lt_succ {length n i : ℕ} (h : evenBoundary length n i < length) :
    evenBoundary length n i < evenBoundary length n (i + 1) := by
  rw [evenBoundary_succ]
  rcases Nat.eq_zero_or_pos (length / n) with hzero | hpos
  · have hmod := Nat.div_add_mod length n
    rw [hzero, Nat.mul_zero, Nat.zero_add] at hmod
    rw [evenBoundary, hzero, hmod, Nat.mul_zero, Nat.zero_add] at h ⊢
    rw [if_pos (by omega)]
    omega
  · omega

/-- The `n` even pieces of a list. -/
def evenPieces (l : List α) (n : ℕ) : List (List α) := pieces (evenBoundary l.length n) n l

/-- The even pieces make up the list. -/
theorem flatten_evenPieces (l : List α) {n : ℕ} (hn : 1 ≤ n) : (evenPieces l n).flatten = l := by
  rw [evenPieces, flatten_pieces (evenBoundary_mono _ _) (evenBoundary_zero _ _),
    evenBoundary_self hn, List.take_length]

/-- The lengths of the even pieces. -/
theorem length_evenPiece (l : List α) {n i : ℕ} (hi : i < n) :
    (piece (evenBoundary l.length n) l i).length
      = l.length / n + if i < l.length % n then 1 else 0 := by
  rw [length_piece, Nat.min_eq_left (evenBoundary_le hi (Nat.zero_lt_of_lt hi)),
    evenBoundary_succ, Nat.add_sub_cancel_left]

/-- The lengths of two even pieces differ by one at most. -/
theorem length_le_of_mem_evenPieces {l : List α} {n : ℕ} {p p' : List α}
    (hp : p ∈ evenPieces l n) (hp' : p' ∈ evenPieces l n) : p.length ≤ p'.length + 1 := by
  obtain ⟨i, hi, rfl⟩ := List.mem_map.mp hp
  obtain ⟨j, hj, rfl⟩ := List.mem_map.mp hp'
  rw [length_evenPiece l (List.mem_range.mp hi), length_evenPiece l (List.mem_range.mp hj)]
  have hone : (if i < l.length % n then 1 else 0) ≤ 1 := by
    split
    · exact Nat.le_refl 1
    · exact Nat.zero_le 1
  omega

/-! ## Work shared out -/

/-- One worker does more. -/
theorem flatMap_update_perm (f : ℕ → List α) {n i : ℕ} (hi : i < n) (more : List α) :
    ((List.range n).flatMap (Function.update f i (f i ++ more))).Perm
      ((List.range n).flatMap f ++ more) := by
  induction n with
  | zero => exact absurd hi (Nat.not_lt_zero i)
  | succ n ih =>
      rw [List.range_succ, List.flatMap_append, List.flatMap_append, List.flatMap_singleton,
        List.flatMap_singleton]
      rcases Nat.lt_succ_iff_lt_or_eq.mp hi with hlt | rfl
      · -- the last worker has done nothing, and what the other has done moves behind it
        rw [Function.update_of_ne (Nat.ne_of_gt hlt)]
        refine ((ih hlt).append_right (f n)).trans ?_
        rw [List.append_assoc, List.append_assoc]
        exact List.perm_append_comm.append_left _
      · have hothers : (List.range i).flatMap (Function.update f i (f i ++ more))
            = (List.range i).flatMap f := by
          refine List.flatMap_congr fun j hj => ?_
          rw [Function.update_of_ne (Nat.ne_of_lt (List.mem_range.mp hj))]
        rw [hothers, Function.update_self, List.append_assoc]

/-- All workers go through their shares the same number of times. -/
theorem flatMap_replicate_perm (share : ℕ → List α) (n k : ℕ) :
    ((List.range n).flatMap fun i => (List.replicate k (share i)).flatten).Perm
      (List.replicate k ((List.range n).flatMap share)).flatten := by
  induction k with
  | zero =>
      simp only [List.replicate_zero, List.flatten_nil]
      rw [List.flatMap_eq_nil_iff.mpr fun _ _ => rfl]
  | succ k ih =>
      simp only [List.replicate_succ, List.flatten_cons]
      exact (List.flatMap_append_perm _ _ _).symm.trans (ih.append_left _)

end TwigKV
