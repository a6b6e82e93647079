import TwigKV.ReadPool.PoolSafety

/-! # What the pool's steps add to its history

Reads are accepted by the first queue operation of `read` and their callbacks run in
`execute_pending`; no other step changes which reads there are and which callbacks have run. A
callback that a thread is about to run has not run before. -/

namespace TwigKV.ReadPool

variable {Thread : Type*} [DecidableEq Thread] {s s' : PoolState Thread}

/-- The two histories agree. -/
structure SameHistory (s s' : PoolState Thread) : Prop where
  /-- The same reads were accepted. -/
  acceptedReads : s'.acceptedReads = s.acceptedReads
  /-- They were given the same buffers. -/
  readBuffer : s'.readBuffer = s.readBuffer
  /-- The same callbacks ran. -/
  callbackRuns : s'.callbackRuns = s.callbackRuns

/-- The label adds to the history. -/
def addsHistory : PoolLabel Thread → Bool
  | .readDequeueFree _ _ _ _ | .executeCallback _ => true
  | .readCall _ _ _ | .readPost _ _ | .readEnqueuePending _ | .readCompletes _
  | .executeDequeuePending _ _ | .executeFreeRequestToken _ | .executeEnqueueFree _ => false

/-- The queue operations between `read` and the callback, and after it. -/
theorem sameHistory_poolStep {l : PoolLabel Thread} (hl : addsHistory l = false)
    (h : poolStep s l = some s') : SameHistory s s' := by
  unfold poolStep at h
  split at h
  · cases h
  cases l with
  | readDequeueFree | executeCallback => cases hl
  | readCall t remoteIndex hasCallback =>
    simp only [readCall] at h
    split at h
    · cases h
      exact ⟨rfl, rfl, rfl⟩
    · cases h
  | readPost t i =>
    simp only [readPost] at h
    split at h
    · split at h
      · cases h
        exact ⟨rfl, rfl, rfl⟩
      · obtain ⟨_, -, rfl⟩ := Option.map_eq_some_iff.mp h
        exact ⟨rfl, rfl, rfl⟩
    · cases h
  | readEnqueuePending t =>
    simp only [readEnqueuePending] at h
    split at h
    · cases h
      exact ⟨rfl, rfl, rfl⟩
    · cases h
  | readCompletes token =>
    simp only [readCompletes] at h
    split at h
    · cases h
    · cases h
      exact ⟨rfl, rfl, rfl⟩
  | executeDequeuePending t i =>
    simp only [executeDequeuePending] at h
    split at h
    · obtain ⟨_, -, rfl⟩ := Option.map_eq_some_iff.mp h
      exact ⟨rfl, rfl, rfl⟩
    · cases h
  | executeFreeRequestToken t =>
    simp only [executeFreeRequestToken] at h
    split at h
    · split at h
      · cases h
      · cases h
        exact ⟨rfl, rfl, rfl⟩
    · cases h
  | executeEnqueueFree t =>
    simp only [executeEnqueueFree] at h
    split at h
    · cases h
      exact ⟨rfl, rfl, rfl⟩
    · cases h

/-- A read with a callback is accepted. -/
theorem accepted_poolStep {t : Thread} {i remoteIndex : ℕ}
    (h : poolStep s (.readDequeueFree t i remoteIndex true) = some s') :
    s'.acceptedReads = s.acceptedReads + 1 ∧ s'.callbackRuns = s.callbackRuns ∧
      ∃ b, s'.readBuffer = Function.update s.readBuffer s.acceptedReads (some b) := by
  unfold poolStep at h
  split at h
  · cases h
  · simp only [readDequeueFree] at h
    split at h
    · obtain ⟨⟨d, rest⟩, -, rfl⟩ := Option.map_eq_some_iff.mp h
      exact ⟨rfl, rfl, d.data, rfl⟩
    · cases h

/-- A callback runs. -/
theorem ran_poolStep {t : Thread} (h : poolStep s (.executeCallback t) = some s') :
    s'.acceptedReads = s.acceptedReads ∧ s'.readBuffer = s.readBuffer ∧
      ∀ r, s'.runsOf r = s.runsOf r + if (s.threads t).waitingRead = some r then 1 else 0 := by
  unfold poolStep at h
  split at h
  · cases h
  · simp only [executeCallback] at h
    split at h
    · next d ht =>
      split at h
      · cases h
      · split at h
        · cases h
          refine ⟨rfl, rfl, fun r => ?_⟩
          rw [ht, ThreadState.waitingRead, PoolState.runsOf, moveTo_callbackRuns]
          cases d.callback with
          | none => rfl
          | some r' =>
            simp [PoolState.runsOf, List.countP_append, List.countP_cons]
        · cases h
    · cases h

/-! ## Where a thread gets -/

/-- The thread that a label moves, and where. -/
inductive Moves : PoolLabel Thread → Thread → ThreadState → Prop
  /-- `read` is called. -/
  | call {t : Thread} {remoteIndex : ℕ} {hasCallback : Bool} :
      Moves (.readCall t remoteIndex hasCallback) t (.spinning remoteIndex hasCallback)
  /-- `read` has a buffer. -/
  | acquire {t : Thread} {i remoteIndex : ℕ} {hasCallback : Bool} (d : DataWithRequestToken) :
      Moves (.readDequeueFree t i remoteIndex hasCallback) t (.acquired d)
  /-- `read` has posted. -/
  | post {t : Thread} {i : ℕ} (d : DataWithRequestToken) : Moves (.readPost t i) t (.posted d)
  /-- `read` returns. -/
  | enqueuePending {t : Thread} : Moves (.readEnqueuePending t) t .idle
  /-- `execute_pending` has an entry. -/
  | dequeue {t : Thread} {i : ℕ} (d : DataWithRequestToken) :
      Moves (.executeDequeuePending t i) t (.dequeued d)
  /-- Its callback has run. -/
  | callBack {t : Thread} (d : DataWithRequestToken) : Moves (.executeCallback t) t (.calledBack d)
  /-- Its token is free. -/
  | freeToken {t : Thread} (d : DataWithRequestToken) :
      Moves (.executeFreeRequestToken t) t (.tokenFreed d)
  /-- Its buffer is free. -/
  | enqueueFree {t : Thread} : Moves (.executeEnqueueFree t) t .idle

/-- A step moves one thread at most. -/
theorem threads_poolStep {l : PoolLabel Thread} (h : poolStep s l = some s') :
    s'.threads = s.threads ∨ ∃ t x, Moves l t x ∧ s'.threads = Function.update s.threads t x := by
  unfold poolStep at h
  split at h
  · cases h
  cases l with
  | readCall t remoteIndex hasCallback =>
    simp only [readCall] at h
    split at h
    · cases h
      exact Or.inr ⟨t, _, .call, rfl⟩
    · cases h
  | readDequeueFree t i remoteIndex hasCallback =>
    simp only [readDequeueFree] at h
    split at h
    · obtain ⟨_, -, rfl⟩ := Option.map_eq_some_iff.mp h
      exact Or.inr ⟨t, _, .acquire _, rfl⟩
    · cases h
  | readPost t i =>
    simp only [readPost] at h
    split at h
    · split at h
      · cases h
        exact Or.inl rfl
      · obtain ⟨_, -, rfl⟩ := Option.map_eq_some_iff.mp h
        exact Or.inr ⟨t, _, .post _, rfl⟩
    · cases h
  | readEnqueuePending t =>
    simp only [readEnqueuePending] at h
    split at h
    · cases h
      exact Or.inr ⟨t, _, .enqueuePending, rfl⟩
    · cases h
  | readCompletes token =>
    simp only [readCompletes] at h
    split at h
    · cases h
    · cases h
      exact Or.inl rfl
  | executeDequeuePending t i =>
    simp only [executeDequeuePending] at h
    split at h
    · obtain ⟨_, -, rfl⟩ := Option.map_eq_some_iff.mp h
      exact Or.inr ⟨t, _, .dequeue _, rfl⟩
    · cases h
  | executeCallback t =>
    simp only [executeCallback] at h
    split at h
    · split at h
      · cases h
      · split at h
        · cases h
          exact Or.inr ⟨t, _, .callBack _, rfl⟩
        · cases h
    · cases h
  | executeFreeRequestToken t =>
    simp only [executeFreeRequestToken] at h
    split at h
    · split at h
      · cases h
      · cases h
        exact Or.inr ⟨t, _, .freeToken _, rfl⟩
    · cases h
  | executeEnqueueFree t =>
    simp only [executeEnqueueFree] at h
    split at h
    · cases h
      exact Or.inr ⟨t, _, .enqueueFree, rfl⟩
    · cases h

/-! ## Callbacks that have not run -/

variable [Fintype Thread]

omit [DecidableEq Thread] in
/-- A callback in a thread's hands has not run, and its read was accepted. -/
theorem PoolInvariant.waitingRead {D T : ℕ} (h : PoolInvariant D T s) {t : Thread} {r : ℕ}
    (ht : (s.threads t).waitingRead = some r) : s.runsOf r = 0 ∧ r < s.acceptedReads := by
  have hruns := h.runs r
  have hmem : t ∈ Finset.univ.filter fun t => (s.threads t).waitingRead = some r :=
    Finset.mem_filter.mpr ⟨Finset.mem_univ t, ht⟩
  have hpos : 0 < s.waitingFor r :=
    Nat.add_pos_right _ (Finset.card_pos.mpr ⟨t, hmem⟩)
  cases hbuffer : s.readBuffer r with
  | none =>
    rw [hbuffer, dueRuns] at hruns
    omega
  | some b =>
    rw [hbuffer, dueRuns] at hruns
    refine ⟨by omega, ?_⟩
    by_contra hge
    rw [h.fresh r (Nat.le_of_not_lt hge)] at hbuffer
    cases hbuffer

omit [DecidableEq Thread] in
/-- The callback of a read that has not been accepted has not run. -/
theorem PoolInvariant.runsOf_fresh {D T : ℕ} (h : PoolInvariant D T s) {r : ℕ}
    (hr : s.acceptedReads ≤ r) : s.runsOf r = 0 := by
  have hruns := h.runs r
  rw [h.fresh r hr, dueRuns] at hruns
  exact Nat.eq_zero_of_add_eq_zero_right hruns

end TwigKV.ReadPool
