import TwigKV.ReadPool.PoolInvariant
import Mathlib.Data.List.Count

/-! # Safety of the read pool, for every interleaving

The conservation laws of `PoolInvariant`, read off as statements about places: where one data buffer
is, how many tokens and buffers are in use, and how often a read's callback has run. -/

namespace TwigKV.ReadPool

variable {Thread : Type*} [Fintype Thread]

/-- The buffer a thread holds in its local variable. -/
def ThreadState.buffer : ThreadState → Option ℕ
  | .idle | .spinning _ _ => none
  | .acquired d | .posted d | .dequeued d | .calledBack d | .tokenFreed d => some d.data

/-- The read whose callback a thread holds and has not run yet. -/
def ThreadState.waitingRead : ThreadState → Option ℕ
  | .idle | .spinning _ _ | .calledBack _ | .tokenFreed _ => none
  | .acquired d | .posted d | .dequeued d => d.callback

/-- How often buffer `b` occurs in `free_queue`. -/
def PoolState.inFreeQueue (s : PoolState Thread) (b : ℕ) : ℕ :=
  s.freeQueue.countP fun d => d.data = b

/-- How often buffer `b` occurs in `pending_read_queue`. -/
def PoolState.inPendingQueue (s : PoolState Thread) (b : ℕ) : ℕ :=
  s.pendingReadQueue.countP fun d => d.data = b

/-- How many threads hold buffer `b`. -/
def PoolState.inHands (s : PoolState Thread) (b : ℕ) : ℕ :=
  (Finset.univ.filter fun t => (s.threads t).buffer = some b).card

/-- How often the callback of read `r` has run. -/
def PoolState.runsOf (s : PoolState Thread) (r : ℕ) : ℕ :=
  s.callbackRuns.countP fun run => run.1 = r

/-- In how many places the callback of read `r` waits to be run: in `pending_read_queue` or with a
thread that has not come to its callback yet. -/
def PoolState.waitingFor (s : PoolState Thread) (r : ℕ) : ℕ :=
  (s.pendingReadQueue.countP fun d => d.callback = some r)
    + (Finset.univ.filter fun t => (s.threads t).waitingRead = some r).card

/-- An indicator weighs a queue by counting. -/
theorem weight_indicator {α : Type*} (p : α → Prop) [DecidablePred p] (q : List α) :
    weight (fun a => if p a then 1 else 0) q = q.countP fun a => p a := by
  induction q with
  | nil => rfl
  | cons a q ih =>
      rw [weight_cons, ih, List.countP_cons]
      simp only [decide_eq_true_eq]
      exact Nat.add_comm _ _

/-- An indicator weighs the threads' hands by counting threads. -/
theorem heldWeight_indicator {β : Type*} (p : β → Prop) [DecidablePred p] (threads : Thread → β) :
    heldWeight (fun x => if p x then 1 else 0) threads
      = (Finset.univ.filter fun t => p (threads t)).card := by
  rw [heldWeight, Finset.card_filter]

/-- The indicator of buffer `b` weighs a thread by whether it holds `b`. -/
theorem dataWeight_indicator (b : ℕ) :
    dataWeight (fun x => if x = b then 1 else 0)
      = fun x : ThreadState => if x.buffer = some b then 1 else 0 := by
  funext x
  cases x <;> simp [dataWeight, onData, ThreadState.buffer]

/-- The waiting weight of read `r` is the indicator of its callback. -/
theorem waitingWeight_indicator (r : ℕ) :
    waitingWeight r = fun x : ThreadState => if x.waitingRead = some r then 1 else 0 := by
  funext x
  cases x <;> rfl

/-- Conservation of buffers, one buffer at a time. -/
theorem PoolInvariant.places {D T : ℕ} {s : PoolState Thread} (h : PoolInvariant D T s) {b : ℕ}
    (hb : b < D) : s.inFreeQueue b + s.inPendingQueue b + s.inHands b = 1 := by
  have hw := h.buffers fun x => if x = b then 1 else 0
  rw [dataWeight_indicator, heldWeight_indicator, weight_indicator,
    show (fun a => decide (a = b)) = (· == b) from rfl, ← List.count,
    List.count_eq_one_of_mem List.nodup_range (List.mem_range.mpr hb)] at hw
  have hfree : weight (onData fun x => if x = b then 1 else 0) s.freeQueue = s.inFreeQueue b :=
    weight_indicator (fun d : DataWithRequestToken => d.data = b) s.freeQueue
  have hpending : weight (onData fun x => if x = b then 1 else 0) s.pendingReadQueue
      = s.inPendingQueue b :=
    weight_indicator (fun d : DataWithRequestToken => d.data = b) s.pendingReadQueue
  rw [hfree, hpending] at hw
  exact hw

/-- Conservation of callbacks, one read at a time. -/
theorem PoolInvariant.runs {D T : ℕ} {s : PoolState Thread} (h : PoolInvariant D T s) (r : ℕ) :
    s.runsOf r + s.waitingFor r = dueRuns (s.readBuffer r) := by
  have hw := h.callbacks r
  have hruns : weight (runWeight r) s.callbackRuns = s.runsOf r :=
    weight_indicator (fun run : ℕ × ℕ => run.1 = r) s.callbackRuns
  have hpending : weight (onCallback r) s.pendingReadQueue
      = s.pendingReadQueue.countP fun d => d.callback = some r :=
    weight_indicator (fun d : DataWithRequestToken => d.callback = some r) s.pendingReadQueue
  rw [hruns, hpending, waitingWeight_indicator, heldWeight_indicator, Nat.add_assoc] at hw
  exact hw

variable [DecidableEq Thread]

/-- **Safety of the read pool.** With `D` data buffers, `T ≥ D` tokens, any number of threads and
any interleaving of their queue operations: every buffer is in exactly one place; the tokens in use
never outnumber the buffers in use; `get_request_token` never panics; the callback of an accepted
read waits in one place or has run once, on the buffer that read was given, and a read that passed
no callback causes no run. -/
theorem readPool_safe {D T : ℕ} (hDT : D ≤ T) {s : PoolState Thread}
    (hs : Reachable poolStep (PoolState.init Thread D T) s) :
    (∀ b, b < D → s.inFreeQueue b + s.inPendingQueue b + s.inHands b = 1) ∧
      s.tokensOut T ≤ s.buffersOut D ∧
      s.panicked = false ∧
      (∀ r b, s.readBuffer r = some b → s.runsOf r + s.waitingFor r = 1) ∧
      (∀ r, s.readBuffer r = none → s.runsOf r = 0) ∧
      ∀ run ∈ s.callbackRuns, s.readBuffer run.1 = some run.2 := by
  have h := poolInvariant_of_reachable hDT hs
  refine ⟨fun b hb => h.places hb, h.tokensOut_le, h.running, fun r b hr => ?_, fun r hr => ?_,
    h.runsOwn⟩
  · have hruns := h.runs r
    rwa [hr] at hruns
  · have hruns := h.runs r
    rw [hr] at hruns
    exact Nat.eq_zero_of_add_eq_zero_right hruns

/-- Two threads, one buffer and one token: thread `0` reads, thread `1` completes the read and has
run its callback, once, on buffer `0`. -/
theorem readPool_safe_one_read : ∃ s, runLabels poolStep (PoolState.init (Fin 2) 1 1)
      [.readDequeueFree 0 0 7 true, .readPost 0 0, .readEnqueuePending 0, .readCompletes 0,
        .executeDequeuePending 1 0, .executeCallback 1] = some s ∧
    s.callbackRuns = [(0, 0)] ∧ s.inFreeQueue 0 + s.inPendingQueue 0 + s.inHands 0 = 1 ∧
    s.tokensOut 1 ≤ s.buffersOut 1 ∧ s.panicked = false ∧ s.runsOf 0 + s.waitingFor 0 = 1 := by
  obtain ⟨s, hrun⟩ : ∃ s, runLabels poolStep (PoolState.init (Fin 2) 1 1)
      [.readDequeueFree 0 0 7 true, .readPost 0 0, .readEnqueuePending 0, .readCompletes 0,
        .executeDequeuePending 1 0, .executeCallback 1] = some s := ⟨_, rfl⟩
  have hfacts : (runLabels poolStep (PoolState.init (Fin 2) 1 1)
      [.readDequeueFree 0 0 7 true, .readPost 0 0, .readEnqueuePending 0, .readCompletes 0,
        .executeDequeuePending 1 0, .executeCallback 1]).map
        (fun s => (s.callbackRuns, s.readBuffer 0)) = some ([(0, 0)], some 0) := rfl
  rw [hrun, Option.map_some, Option.some.injEq, Prod.mk.injEq] at hfacts
  obtain ⟨hplaces, htokens, hpanic, hruns, -, -⟩ :=
    readPool_safe (le_refl 1) (reachable_of_runLabels _ hrun)
  exact ⟨s, hrun, hfacts.1, hplaces 0 Nat.zero_lt_one, htokens, hpanic, hruns 0 0 hfacts.2⟩

end TwigKV.ReadPool
