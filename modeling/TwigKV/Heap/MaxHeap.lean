import TwigKV.Foundations.PriorityQueue
import Mathlib.Algebra.BigOperators.Group.Multiset.Basic
import Mathlib.Algebra.Order.BigOperators.Group.Multiset
import Mathlib.Algebra.Order.Ring.Nat

/-! # The heap of free nodes (`heap.h`)

`MaxHeap` hands out indexes: `add` enters an index with a number of free nodes, `getNode` gives back
an index with a largest number left and enters it again with one less, unless nothing is left. The
numbers are kept in the queue only.

Seen from outside, a heap has free counts, and every call changes them as it should as long as no
index is entered with no free nodes (`allocatesWhatWasAdded_iff`): for such an index the unsigned
number wraps around, and the heap hands it out `2 ^ 64` times. -/

namespace TwigKV.Heap

/-- `Node`. -/
structure Node where
  /-- `free_nodes`. -/
  freeNodes : UInt64
  /-- `index`. -/
  index : UInt64
deriving DecidableEq, Repr

/-- What `operator<` compares. -/
def Node.key (node : Node) : ℕ := node.freeNodes.toNat

variable (pq : PriorityQueue Node Node.key)

/-- `add`. -/
def add (heap : pq.State) (freeNodes index : UInt64) : pq.State :=
  pq.push heap ⟨freeNodes, index⟩

/-- `getNode`: `none` where it throws, on the empty heap. -/
def getNode (heap : pq.State) : Option (UInt64 × pq.State) :=
  (pq.pop heap).map fun top =>
    (top.1.index,
      if top.1.freeNodes - 1 > 0 then pq.push top.2 ⟨top.1.freeNodes - 1, top.1.index⟩ else top.2)

/-- `isEmpty`. -/
def isEmpty (heap : pq.State) : Bool := (pq.pop heap).isNone

/-- A call of a method of `MaxHeap`. -/
inductive Call where
  /-- `add`. -/
  | add (freeNodes index : UInt64)
  /-- `getNode`. -/
  | getNode
deriving DecidableEq, Repr

/-- A call: the index it returns, if it does, and the heap after it. -/
def call (heap : pq.State) : Call → Option UInt64 × pq.State
  | .add freeNodes index => (none, add pq heap freeNodes index)
  | .getNode =>
    match getNode pq heap with
    | none => (none, heap)
    | some (index, heap') => (some index, heap')

/-- The heap after some calls. -/
def heapAfter (calls : List Call) : pq.State :=
  calls.foldl (fun heap c => (call pq heap c).2) pq.empty

/-- `getNode`, `k` times: `none` where one of them throws. -/
def getNodes : ℕ → pq.State → Option (List UInt64 × pq.State)
  | 0, heap => some ([], heap)
  | k + 1, heap =>
    (getNode pq heap).bind fun first =>
      (getNodes k first.2).map fun rest => (first.1 :: rest.1, rest.2)

/-! ## Free counts -/

/-- The free counts of indexes: how much is left of every entry. -/
abbrev FreeCounts : Type := Multiset (ℕ × UInt64)

/-- What a heap has left. -/
def freeCounts (heap : pq.State) : FreeCounts :=
  (pq.contents heap).map fun node => (node.freeNodes.toNat, node.index)

/-- One is taken from an entry, which is gone when nothing is left of it. -/
def takeOne (free : ℕ) (index : UInt64) (others : FreeCounts) : FreeCounts :=
  if free = 1 then others else (free - 1, index) ::ₘ others

/-- **What a call should do**: the free counts before, the call, the index returned and the free
counts after. -/
inductive Allocates : FreeCounts → Call → Option UInt64 → FreeCounts → Prop where
  /-- An entry is added. -/
  | add (counts : FreeCounts) (freeNodes index : UInt64) :
      Allocates counts (.add freeNodes index) none ((freeNodes.toNat, index) ::ₘ counts)
  /-- One is taken from an entry that has most left, and at least one. -/
  | getNode {free : ℕ} {index : UInt64} {others : FreeCounts} (hone : 1 ≤ free)
      (hmax : ∀ entry ∈ others, entry.1 ≤ free) :
      Allocates ((free, index) ::ₘ others) .getNode (some index) (takeOne free index others)
  /-- Nothing is taken where nothing is left. -/
  | empty : Allocates 0 .getNode none 0

/-- The total left of an index. -/
def totalFree (counts : FreeCounts) (index : UInt64) : ℕ :=
  ((counts.filter fun entry => entry.2 = index).map Prod.fst).sum

/-- Repeated `getNode` returns every index as often as its free counts say and then finds the heap
empty. -/
def Drains (heap : pq.State) : Prop :=
  ∃ k indexes heap', getNodes pq k heap = some (indexes, heap') ∧
    (∀ index, indexes.count index = totalFree (freeCounts pq heap) index) ∧
    isEmpty pq heap' = true

/-- **The heap allocates exactly what was added**: every call of a sequence does what it should, and
the heap drains from every state. -/
def AllocatesWhatWasAdded (calls : List Call) : Prop :=
  (∀ before c after, calls = before ++ c :: after →
    Allocates (freeCounts pq (heapAfter pq before)) c (call pq (heapAfter pq before) c).1
      (freeCounts pq (heapAfter pq (before ++ [c])))) ∧
  ∀ before after, calls = before ++ after → Drains pq (heapAfter pq before)

/-! ## Taking one -/

/-- The total of all indexes. -/
def total (counts : FreeCounts) : ℕ := (counts.map Prod.fst).sum

/-- The total with one more entry. -/
@[simp] theorem total_cons (free : ℕ) (index : UInt64) (counts : FreeCounts) :
    total ((free, index) ::ₘ counts) = free + total counts := by
  rw [total, Multiset.map_cons, Multiset.sum_cons, ← total]

/-- The total of an index with one more entry. -/
@[simp] theorem totalFree_cons (free : ℕ) (index i : UInt64) (counts : FreeCounts) :
    totalFree ((free, index) ::ₘ counts) i
      = (if index = i then free else 0) + totalFree counts i := by
  rw [totalFree]
  split
  · next h =>
    rw [Multiset.filter_cons_of_pos (p := fun entry : ℕ × UInt64 => entry.2 = i) _ h,
      Multiset.map_cons, Multiset.sum_cons, ← totalFree]
  · next h =>
    rw [Multiset.filter_cons_of_neg (p := fun entry : ℕ × UInt64 => entry.2 = i) _ h,
      Nat.zero_add, ← totalFree]

/-- The entries of which nothing is left. -/
def exhausted (counts : FreeCounts) : FreeCounts := counts.filter fun entry => entry.1 = 0

/-- Taking one lowers the total by one. -/
theorem total_takeOne {free : ℕ} (hone : 1 ≤ free) (index : UInt64) (others : FreeCounts) :
    total (takeOne free index others) + 1 = total ((free, index) ::ₘ others) := by
  unfold takeOne
  split
  · next h => rw [total_cons, h, Nat.add_comm]
  · rw [total_cons, total_cons]
    omega

/-- Taking one lowers the total of its index by one. -/
theorem totalFree_takeOne {free : ℕ} (hone : 1 ≤ free) (index i : UInt64) (others : FreeCounts) :
    totalFree (takeOne free index others) i + (if index = i then 1 else 0)
      = totalFree ((free, index) ::ₘ others) i := by
  unfold takeOne
  rw [totalFree_cons]
  split
  · next h => rw [h, Nat.add_comm]
  · rw [totalFree_cons]
    by_cases hi : index = i
    · rw [if_pos hi, if_pos hi, if_pos hi]
      omega
    · rw [if_neg hi, if_neg hi, if_neg hi]
      omega

/-- Taking one exhausts no entry that stays. -/
theorem exhausted_takeOne {free : ℕ} (hone : 1 ≤ free) (index : UInt64) (others : FreeCounts) :
    exhausted (takeOne free index others) = exhausted ((free, index) ::ₘ others) := by
  have hcons : ∀ n : ℕ, n ≠ 0 → exhausted ((n, index) ::ₘ others) = exhausted others := fun n hn =>
    Multiset.filter_cons_of_neg (p := fun entry : ℕ × UInt64 => entry.1 = 0) _ hn
  rw [hcons free (by omega)]
  unfold takeOne
  split
  · rfl
  · rw [hcons (free - 1) (by omega)]

/-- Where something is left, something is left of an entry that has most left. -/
theorem one_le_of_max {free : ℕ} {index : UInt64} {others : FreeCounts}
    (hmax : ∀ entry ∈ others, entry.1 ≤ free) (htotal : total ((free, index) ::ₘ others) ≠ 0) :
    1 ≤ free := by
  by_contra hzero
  apply htotal
  rw [total_cons, total]
  have hothers : ∀ x ∈ others.map Prod.fst, x = 0 := by
    intro x hx
    obtain ⟨entry, hentry, rfl⟩ := Multiset.mem_map.mp hx
    have hle := hmax entry hentry
    omega
  rw [Multiset.sum_eq_zero hothers]
  omega

/-- Where nothing is left, all entries are exhausted. -/
theorem exhausted_eq_self {counts : FreeCounts} (h : total counts = 0) :
    exhausted counts = counts := by
  rw [exhausted, Multiset.filter_eq_self]
  intro entry hentry
  exact Multiset.sum_eq_zero_iff.mp h _ (Multiset.mem_map_of_mem _ hentry)

/-! ## The calls -/

variable {pq}

/-- What `add` does to the free counts. -/
theorem freeCounts_add (heap : pq.State) (freeNodes index : UInt64) :
    freeCounts pq (add pq heap freeNodes index)
      = (freeNodes.toNat, index) ::ₘ freeCounts pq heap := by
  rw [freeCounts, add, pq.contents_push, Multiset.map_cons]
  rfl

/-- `getNode` throws exactly on the empty heap. -/
theorem getNode_eq_none_iff (heap : pq.State) :
    getNode pq heap = none ↔ freeCounts pq heap = 0 := by
  rw [getNode, Option.map_eq_none_iff, pq.pop_eq_none_iff, freeCounts, Multiset.map_eq_zero]

/-- `getNode` takes one from an entry that has most left, if that is at least one. -/
theorem getNode_spec {heap heap' : pq.State} {index : UInt64}
    (h : getNode pq heap = some (index, heap')) :
    ∃ free others, freeCounts pq heap = (free, index) ::ₘ others ∧
      (∀ entry ∈ others, entry.1 ≤ free) ∧
      (1 ≤ free → freeCounts pq heap' = takeOne free index others) := by
  rw [getNode, Option.map_eq_some_iff] at h
  obtain ⟨⟨node, rest⟩, hpop, heq⟩ := h
  obtain ⟨rfl, rfl⟩ := Prod.mk.inj heq
  refine ⟨node.freeNodes.toNat, freeCounts pq rest, ?_, ?_, ?_⟩
  · rw [freeCounts, pq.contents_pop _ _ _ hpop, Multiset.map_cons]
    rfl
  · intro entry hentry
    obtain ⟨other, hother, rfl⟩ := Multiset.mem_map.mp hentry
    exact pq.le_of_pop _ _ _ hpop other hother
  · intro hone
    have hle : (1 : UInt64) ≤ node.freeNodes := UInt64.le_iff_toNat_le.mpr hone
    have hless := UInt64.toNat_sub_of_le _ _ hle
    have hgt : node.freeNodes - 1 > 0 ↔ ¬ node.freeNodes.toNat = 1 := by
      rw [gt_iff_lt, UInt64.lt_iff_toNat_lt, hless]
      change 0 < node.freeNodes.toNat - 1 ↔ _
      omega
    simp only [takeOne]
    split
    · next hpush =>
      rw [if_neg (hgt.mp hpush), freeCounts, pq.contents_push, Multiset.map_cons, ← freeCounts,
        hless]
      rfl
    · next hpush => rw [if_pos (not_not.mp (mt hgt.mpr hpush))]

/-- The heap is empty when it has nothing left. -/
theorem isEmpty_iff (heap : pq.State) : isEmpty pq heap = true ↔ freeCounts pq heap = 0 := by
  rw [isEmpty, Option.isNone_iff_eq_none, pq.pop_eq_none_iff, freeCounts, Multiset.map_eq_zero]

/-- Without an exhausted entry, what is left of an entry is at least one. -/
theorem one_le_of_exhausted {counts : FreeCounts} (h : exhausted counts = 0) {entry : ℕ × UInt64}
    (hentry : entry ∈ counts) : 1 ≤ entry.1 :=
  Nat.one_le_iff_ne_zero.mpr fun hzero =>
    Multiset.notMem_zero entry (h ▸ Multiset.mem_filter.mpr ⟨hentry, hzero⟩)

/-- Without an exhausted entry, a call does what it should. -/
theorem call_allocates {heap : pq.State} (h : exhausted (freeCounts pq heap) = 0) (c : Call) :
    Allocates (freeCounts pq heap) c (call pq heap c).1 (freeCounts pq (call pq heap c).2) := by
  cases c with
  | add freeNodes index =>
    rw [call, freeCounts_add]
    exact .add _ _ _
  | getNode =>
    rw [call]
    cases hget : getNode pq heap with
    | none =>
      rw [(getNode_eq_none_iff heap).mp hget]
      exact .empty
    | some taken =>
      obtain ⟨free, others, hcounts, hmax, htake⟩ := getNode_spec hget
      have hone : 1 ≤ free := one_le_of_exhausted h (hcounts ▸ Multiset.mem_cons_self _ _)
      rw [htake hone, hcounts]
      exact .getNode hone hmax

/-- A call that adds no exhausted entry leaves none. -/
theorem exhausted_call {heap : pq.State} (h : exhausted (freeCounts pq heap) = 0) {c : Call}
    (hc : ∀ freeNodes index, c = .add freeNodes index → freeNodes ≠ 0) :
    exhausted (freeCounts pq (call pq heap c).2) = 0 := by
  cases c with
  | add freeNodes index =>
    have hne : ¬ freeNodes.toNat = 0 := fun hzero =>
      hc freeNodes index rfl (UInt64.toNat_inj.mp hzero)
    rw [call, freeCounts_add, exhausted,
      Multiset.filter_cons_of_neg (p := fun entry : ℕ × UInt64 => entry.1 = 0) _ hne]
    exact h
  | getNode =>
    rw [call]
    cases hget : getNode pq heap with
    | none => exact h
    | some taken =>
      obtain ⟨free, others, hcounts, -, htake⟩ := getNode_spec hget
      have hone : 1 ≤ free := one_le_of_exhausted h (hcounts ▸ Multiset.mem_cons_self _ _)
      rw [htake hone, exhausted_takeOne hone, ← hcounts]
      exact h

/-- The heap after one more call. -/
theorem heapAfter_append (calls : List Call) (c : Call) :
    heapAfter pq (calls ++ [c]) = (call pq (heapAfter pq calls) c).2 := by
  rw [heapAfter, List.foldl_append]
  rfl

/-- Calls that add no exhausted entry leave none. -/
theorem exhausted_heapAfter {calls : List Call}
    (h : ∀ freeNodes index, .add freeNodes index ∈ calls → freeNodes ≠ 0) :
    exhausted (freeCounts pq (heapAfter pq calls)) = 0 := by
  induction calls using List.reverseRecOn with
  | nil =>
      rw [heapAfter, List.foldl_nil, freeCounts, pq.contents_empty]
      rfl
  | append_singleton calls c ih =>
      rw [heapAfter_append]
      refine exhausted_call (ih fun freeNodes index hmem =>
        h freeNodes index (List.mem_append_left _ hmem)) ?_
      rintro freeNodes index rfl
      exact h freeNodes index (List.mem_append_right _ (List.mem_singleton.mpr rfl))

/-! ## Draining -/

/-- As many calls of `getNode` as there are free nodes return every index as often as it has free
nodes, and leave the exhausted entries. -/
theorem getNodes_total {k : ℕ} {heap : pq.State} (hk : total (freeCounts pq heap) = k) :
    ∃ indexes heap', getNodes pq k heap = some (indexes, heap') ∧
      (∀ index, indexes.count index = totalFree (freeCounts pq heap) index) ∧
      freeCounts pq heap' = exhausted (freeCounts pq heap) := by
  induction k generalizing heap with
  | zero =>
      have hself := exhausted_eq_self hk
      refine ⟨[], heap, rfl, fun index => ?_, hself.symm⟩
      rw [List.count_nil, totalFree, ← hself]
      refine (Multiset.sum_eq_zero fun x hx => ?_).symm
      obtain ⟨entry, hentry, rfl⟩ := Multiset.mem_map.mp hx
      exact (Multiset.mem_filter.mp (Multiset.mem_filter.mp hentry).1).2
  | succ k ih =>
      cases hget : getNode pq heap with
      | none =>
        rw [(getNode_eq_none_iff heap).mp hget] at hk
        exact absurd hk (Nat.zero_ne_add_one k)
      | some taken =>
        obtain ⟨free, others, hcounts, hmax, htake⟩ := getNode_spec hget
        have hone : 1 ≤ free := one_le_of_max hmax (by rw [← hcounts, hk]; exact Nat.succ_ne_zero k)
        have hless := total_takeOne hone taken.1 others
        rw [← hcounts, hk, ← htake hone] at hless
        obtain ⟨indexes, heap', hrun, hcount, hleft⟩ := ih (Nat.succ.inj hless)
        refine ⟨taken.1 :: indexes, heap', ?_, fun index => ?_, ?_⟩
        · rw [getNodes, hget, Option.bind_some, hrun]
          rfl
        · have hindex := totalFree_takeOne hone taken.1 index others
          rw [List.count_cons, hcount, htake hone, hcounts, ← hindex]
          simp only [beq_iff_eq]
        · rw [hleft, htake hone, exhausted_takeOne hone, hcounts]

/-- Every call of `getNode` returns one index. -/
theorem length_of_getNodes {k : ℕ} {heap heap' : pq.State} {indexes : List UInt64}
    (h : getNodes pq k heap = some (indexes, heap')) : indexes.length = k := by
  induction k generalizing heap indexes with
  | zero =>
      rw [getNodes, Option.some.injEq, Prod.mk.injEq] at h
      rw [← h.1]
      rfl
  | succ k ih =>
      rw [getNodes, Option.bind_eq_some_iff] at h
      obtain ⟨first, -, hrest⟩ := h
      obtain ⟨rest, hrun, heq⟩ := Option.map_eq_some_iff.mp hrest
      obtain ⟨rfl, rfl⟩ := Prod.mk.inj heq
      rw [List.length_cons, ih hrun]

/-- A heap drains exactly when it has no exhausted entry. -/
theorem drains_iff (heap : pq.State) : Drains pq heap ↔ exhausted (freeCounts pq heap) = 0 := by
  obtain ⟨indexes, heap', hrun, hcount, hleft⟩ := @getNodes_total pq _ heap rfl
  constructor
  · rintro ⟨k, indexes', heap'', hrun', hcount', hempty⟩
    -- the same indexes as often, so as many calls
    have hperm : indexes'.Perm indexes :=
      List.perm_iff_count.mpr fun index => (hcount' index).trans (hcount index).symm
    have hk : k = total (freeCounts pq heap) := by
      rw [← length_of_getNodes hrun', hperm.length_eq, length_of_getNodes hrun]
    rw [hk, hrun, Option.some.injEq, Prod.mk.injEq] at hrun'
    rw [← hleft, hrun'.2]
    exact (isEmpty_iff heap'').mp hempty
  · intro h
    exact ⟨_, indexes, heap', hrun, hcount, (isEmpty_iff heap').mpr (hleft.trans h)⟩

/-- **When the heap allocates what was added.** For every priority queue and every sequence of
calls: each call does what it should to the free counts, and from every state on the way repeated
`getNode` returns each index as often as it has free nodes and then finds the heap empty, if and
only if no call adds an index with no free nodes. -/
theorem allocatesWhatWasAdded_iff (pq : PriorityQueue Node Node.key) (calls : List Call) :
    AllocatesWhatWasAdded pq calls ↔
      ∀ freeNodes index, .add freeNodes index ∈ calls → freeNodes ≠ 0 := by
  constructor
  · rintro ⟨-, hdrains⟩ freeNodes index hmem rfl
    obtain ⟨before, after, rfl⟩ := List.append_of_mem hmem
    have h := hdrains (before ++ [.add 0 index]) after (by rw [List.append_assoc]; rfl)
    rw [drains_iff, heapAfter_append] at h
    have hmem' : (0, index) ∈ freeCounts pq (call pq (heapAfter pq before) (.add 0 index)).2 := by
      rw [call, freeCounts_add]
      exact Multiset.mem_cons_self _ _
    exact absurd (one_le_of_exhausted h hmem') (Nat.not_succ_le_zero 0)
  · intro h
    have hclean : ∀ before after, calls = before ++ after →
        exhausted (freeCounts pq (heapAfter pq before)) = 0 := by
      rintro before after rfl
      exact exhausted_heapAfter fun freeNodes index hmem =>
        h freeNodes index (List.mem_append_left _ hmem)
    refine ⟨fun before c after hcalls => ?_, fun before after hcalls => ?_⟩
    · rw [heapAfter_append]
      exact call_allocates (hclean before _ hcalls) c
    · exact (drains_iff _).mpr (hclean before after hcalls)

/-- An index added with no free nodes is handed out, and the heap does not drain. -/
theorem not_allocatesWhatWasAdded_zero :
    (call (sortedQueue Node.key) (heapAfter (sortedQueue Node.key) [.add 0 7]) .getNode).1
        = some 7 ∧
      ¬ AllocatesWhatWasAdded (sortedQueue Node.key) [.add 0 7, .getNode] := by
  refine ⟨by decide, fun h => ?_⟩
  have hdrains := h.2 [.add 0 7] [.getNode] rfl
  rw [drains_iff] at hdrains
  exact absurd hdrains (by decide)

end TwigKV.Heap
