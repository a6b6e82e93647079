import Mathlib.Data.List.Sort
import Mathlib.Data.Multiset.AddSub

/-! # Priority queues

A priority queue holds elements with a key and gives back one of largest key. Which one it is among
equal keys depends on how the queue is laid out, so that a queue is given by its states, what these
contain and what its operations do to the contents (`PriorityQueue`). A sorted list is one
(`sortedQueue`). -/

namespace TwigKV

/-- A priority queue of elements with a key. -/
structure PriorityQueue (α : Type*) {κ : Type*} [LinearOrder κ] (key : α → κ) where
  /-- The states of the queue. -/
  State : Type
  /-- What a state contains. -/
  contents : State → Multiset α
  /-- The empty queue. -/
  empty : State
  /-- An element is added. -/
  push : State → α → State
  /-- The element on top and the queue without it, `none` for the empty queue. -/
  pop : State → Option (α × State)
  /-- The empty queue contains nothing. -/
  contents_empty : contents empty = 0
  /-- What a queue contains with an element added. -/
  contents_push : ∀ s a, contents (push s a) = a ::ₘ contents s
  /-- There is a top unless the queue contains nothing. -/
  eq_zero_of_pop : ∀ s, pop s = none → contents s = 0
  /-- The top is contained and taken out. -/
  contents_pop : ∀ s a s', pop s = some (a, s') → contents s = a ::ₘ contents s'
  /-- No element has a larger key than the top. -/
  le_of_pop : ∀ s a s', pop s = some (a, s') → ∀ b ∈ contents s', key b ≤ key a

variable {α κ : Type*} [LinearOrder κ] {key : α → κ}

/-- A queue has no top exactly when it contains nothing. -/
theorem PriorityQueue.pop_eq_none_iff (pq : PriorityQueue α key) (s : pq.State) :
    pq.pop s = none ↔ pq.contents s = 0 := by
  refine ⟨pq.eq_zero_of_pop s, fun h => ?_⟩
  cases hpop : pq.pop s with
  | none => rfl
  | some top =>
    have hcons := pq.contents_pop s top.1 top.2 hpop
    rw [h] at hcons
    exact absurd hcons.symm (Multiset.cons_ne_zero)

/-- A list in descending order of the keys. -/
abbrev DescendingList (key : α → κ) : Type _ :=
  {l : List α // l.Pairwise fun a b => key b ≤ key a}

/-- The queue of lists kept in descending order. -/
def sortedQueue {α κ : Type} [LinearOrder κ] (key : α → κ) : PriorityQueue α key where
  State := DescendingList key
  contents l := l.1
  empty := ⟨[], List.Pairwise.nil⟩
  push l a := ⟨l.1.orderedInsert (fun a b => key b ≤ key a) a, l.2.orderedInsert a l.1⟩
  pop l :=
    match l with
    | ⟨[], _⟩ => none
    | ⟨a :: l, h⟩ => some (a, ⟨l, h.of_cons⟩)
  contents_empty := rfl
  contents_push l a := by
    rw [Multiset.cons_coe, Multiset.coe_eq_coe]
    exact List.perm_orderedInsert _ a l.1
  eq_zero_of_pop l h := by
    obtain ⟨_ | ⟨a, l⟩, hl⟩ := l
    · rfl
    · cases h
  contents_pop l a l' h := by
    obtain ⟨_ | ⟨b, l⟩, hl⟩ := l
    · cases h
    · cases h
      rfl
  le_of_pop l a l' h := by
    obtain ⟨_ | ⟨b, l⟩, hl⟩ := l
    · cases h
    · cases h
      intro c hc
      exact (List.pairwise_cons.mp hl).1 c hc

end TwigKV
