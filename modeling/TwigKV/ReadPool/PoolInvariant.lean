import TwigKV.ReadPool.RdmaDataWithQueue
import Mathlib.Tactic.Linarith

/-! # The read pool loses nothing, shares nothing and never runs out of tokens

Every move of the pool only carries a buffer, a token or a waiting callback from one place to
another. `PoolInvariant` states the three conservation laws as sums of weights over the queues and
the threads' hands, for *every* weighting of the buffers (tokens): the constant weighting counts
them, the indicator of one buffer locates it. Since `read` takes its token after its buffer and
`execute_pending` returns the token before the buffer, the tokens in use never outnumber the
buffers in use, which keeps `get_request_token` from panicking. -/

namespace TwigKV.ReadPool

variable {Thread : Type*}

/-! ## Weights -/

/-- The weight of an entry's data buffer. -/
def onData (w : ℕ → ℕ) (d : DataWithRequestToken) : ℕ := w d.data

/-- The weight of an entry's token, `0` for `nullptr`. -/
def onToken (w : ℕ → ℕ) (d : DataWithRequestToken) : ℕ :=
  match d.token with
  | none => 0
  | some token => w token

/-- `1` when the entry carries the callback of read `r`. -/
def onCallback (r : ℕ) (d : DataWithRequestToken) : ℕ :=
  if d.callback = some r then 1 else 0

/-- The weight of the buffer a thread holds. -/
def dataWeight (w : ℕ → ℕ) : ThreadState → ℕ
  | .idle | .spinning _ _ => 0
  | .acquired d | .posted d | .dequeued d | .calledBack d | .tokenFreed d => onData w d

/-- The weight of the token a thread holds. -/
def tokenWeight (w : ℕ → ℕ) : ThreadState → ℕ
  | .idle | .spinning _ _ | .acquired _ | .tokenFreed _ => 0
  | .posted d | .dequeued d | .calledBack d => onToken w d

/-- `1` when a thread holds the callback of read `r` and has not run it. -/
def waitingWeight (r : ℕ) : ThreadState → ℕ
  | .idle | .spinning _ _ | .calledBack _ | .tokenFreed _ => 0
  | .acquired d | .posted d | .dequeued d => onCallback r d

/-- How often the callback of a read is to run: once, if the history gave it a buffer. -/
def dueRuns : Option ℕ → ℕ
  | none => 0
  | some _ => 1

/-- `1` for a run of the callback of read `r`. -/
def runWeight (r : ℕ) (run : ℕ × ℕ) : ℕ := if run.1 = r then 1 else 0

/-- A token weighs at most its buffer under the counting weighting. -/
theorem tokenWeight_le_dataWeight (x : ThreadState) :
    tokenWeight (fun _ => 1) x ≤ dataWeight (fun _ => 1) x := by
  cases x <;> simp only [tokenWeight, dataWeight, onToken,
    onData, le_refl, Nat.zero_le] <;> split <;> simp

/-- An entry's callback belongs to a read that was given the entry's buffer. -/
def DataWithRequestToken.OwnBuffer (readBuffer : ℕ → Option ℕ) (d : DataWithRequestToken) : Prop :=
  ∀ r, d.callback = some r → readBuffer r = some d.data

/-- The callback a thread is still to run belongs to a read that was given the buffer it holds. -/
def ThreadState.OwnBuffer (readBuffer : ℕ → Option ℕ) : ThreadState → Prop
  | .idle | .spinning _ _ | .calledBack _ | .tokenFreed _ => True
  | .acquired d | .posted d | .dequeued d => d.OwnBuffer readBuffer

/-! ## What one move can do -/

section Moves

variable [DecidableEq Thread]

/-- The moves of the pool with everything they check and change: the specification of `poolStep`
used by every proof below. -/
inductive PoolMove (s : PoolState Thread) : PoolState Thread → Prop
  /-- `read` was called. -/
  | call (t : Thread) (remoteIndex : ℕ) (hasCallback : Bool) (ht : s.threads t = .idle) :
      PoolMove s (s.moveTo t (.spinning remoteIndex hasCallback))
  /-- `read` dequeued buffer entry `d`; read number `s.acceptedReads` is accepted. -/
  | accept (t : Thread) (i remoteIndex : ℕ) (hasCallback : Bool) (d : DataWithRequestToken)
      (rest : List DataWithRequestToken)
      (ht : s.threads t = .idle ∨ s.threads t = .spinning remoteIndex hasCallback)
      (hd : dequeueAt s.freeQueue i = some (d, rest)) :
      PoolMove s ({ s with
        freeQueue := rest
        acceptedReads := s.acceptedReads + 1
        readBuffer := if hasCallback
          then Function.update s.readBuffer s.acceptedReads (some d.data) else s.readBuffer
        }.moveTo t (.acquired { d with
          remoteIndex := remoteIndex
          callback := if hasCallback then some s.acceptedReads else none }))
  /-- `get_request_token` found no token. -/
  | panic (t : Thread) (d : DataWithRequestToken) (ht : s.threads t = .acquired d)
      (he : s.freeRequestTokenQueue = []) : PoolMove s { s with panicked := true }
  /-- `read` took a token and posted. -/
  | post (t : Thread) (i : ℕ) (d : DataWithRequestToken) (token : ℕ) (rest : List ℕ)
      (ht : s.threads t = .acquired d)
      (hd : dequeueAt s.freeRequestTokenQueue i = some (token, rest)) :
      PoolMove s ({ s with
        freeRequestTokenQueue := rest
        completed := Function.update s.completed token false
        }.moveTo t (.posted { d with token := some token }))
  /-- `read` enqueued its entry. -/
  | enqueuePending (t : Thread) (d : DataWithRequestToken) (ht : s.threads t = .posted d) :
      PoolMove s ({ s with pendingReadQueue := s.pendingReadQueue ++ [d] }.moveTo t .idle)
  /-- A posted read completed. -/
  | complete (token : ℕ) (ht : token ∉ s.freeRequestTokenQueue) :
      PoolMove s { s with completed := Function.update s.completed token true }
  /-- `execute_pending` dequeued an entry. -/
  | dequeuePending (t : Thread) (i : ℕ) (d : DataWithRequestToken)
      (rest : List DataWithRequestToken) (ht : s.threads t = .idle)
      (hd : dequeueAt s.pendingReadQueue i = some (d, rest)) :
      PoolMove s ({ s with pendingReadQueue := rest }.moveTo t (.dequeued d))
  /-- `execute_pending` ran the callback of a completed read. -/
  | callBack (t : Thread) (d : DataWithRequestToken) (token : ℕ) (ht : s.threads t = .dequeued d)
      (hd : d.token = some token) (hc : s.completed token = true) :
      PoolMove s ({ s with
        callbackRuns := match d.callback with
          | none => s.callbackRuns
          | some r => s.callbackRuns ++ [(r, d.data)]
        }.moveTo t (.calledBack d))
  /-- `execute_pending` gave its token back. -/
  | freeToken (t : Thread) (d : DataWithRequestToken) (token : ℕ)
      (ht : s.threads t = .calledBack d) (hd : d.token = some token) :
      PoolMove s ({ s with
        freeRequestTokenQueue := s.freeRequestTokenQueue ++ [token]
        }.moveTo t (.tokenFreed { d with token := none }))
  /-- `execute_pending` gave its buffer back. -/
  | enqueueFree (t : Thread) (d : DataWithRequestToken) (ht : s.threads t = .tokenFreed d) :
      PoolMove s ({ s with freeQueue := s.freeQueue ++ [d] }.moveTo t .idle)

/-- Every enabled step is one of the moves, taken by a process that has not panicked. -/
theorem poolMove_of_poolStep {s s' : PoolState Thread} {l : PoolLabel Thread}
    (h : poolStep s l = some s') : s.panicked = false ∧ PoolMove s s' := by
  unfold poolStep at h
  by_cases hp : s.panicked = true
  · rw [if_pos hp] at h
    exact absurd h (by simp)
  rw [if_neg hp] at h
  refine ⟨by simpa using hp, ?_⟩
  cases l with
  | readCall t remoteIndex hasCallback =>
      simp only [readCall] at h
      split at h
      case h_1 ht =>
        rw [← Option.some.inj h]
        exact .call t remoteIndex hasCallback ht
      case h_2 => exact absurd h (by simp)
  | readDequeueFree t i remoteIndex hasCallback =>
      simp only [readDequeueFree] at h
      split at h
      case isTrue ht =>
        obtain ⟨⟨d, rest⟩, hd, rfl⟩ := Option.map_eq_some_iff.mp h
        exact .accept t i remoteIndex hasCallback d rest ht hd
      case isFalse => exact absurd h (by simp)
  | readPost t i =>
      simp only [readPost] at h
      split at h
      case h_1 d ht =>
        split at h
        case isTrue he =>
          rw [← Option.some.inj h]
          exact .panic t d ht (List.isEmpty_iff.mp he)
        case isFalse =>
          obtain ⟨⟨token, rest⟩, hd, rfl⟩ := Option.map_eq_some_iff.mp h
          exact .post t i d token rest ht hd
      case h_2 => exact absurd h (by simp)
  | readEnqueuePending t =>
      simp only [readEnqueuePending] at h
      split at h
      case h_1 d ht =>
        rw [← Option.some.inj h]
        exact .enqueuePending t d ht
      case h_2 => exact absurd h (by simp)
  | readCompletes token =>
      simp only [readCompletes] at h
      split at h
      case isTrue => exact absurd h (by simp)
      case isFalse ht =>
        rw [← Option.some.inj h]
        exact .complete token ht
  | executeDequeuePending t i =>
      simp only [executeDequeuePending] at h
      split at h
      case h_1 ht =>
        obtain ⟨⟨d, rest⟩, hd, rfl⟩ := Option.map_eq_some_iff.mp h
        exact .dequeuePending t i d rest ht hd
      case h_2 => exact absurd h (by simp)
  | executeCallback t =>
      simp only [executeCallback] at h
      split at h
      case h_1 d ht =>
        split at h
        case h_1 => exact absurd h (by simp)
        case h_2 token hd =>
          split at h
          case isTrue hc =>
            rw [← Option.some.inj h]
            exact .callBack t d token ht hd hc
          case isFalse => exact absurd h (by simp)
      case h_2 => exact absurd h (by simp)
  | executeFreeRequestToken t =>
      simp only [executeFreeRequestToken] at h
      split at h
      case h_1 d ht =>
        split at h
        case h_1 => exact absurd h (by simp)
        case h_2 token hd =>
          rw [← Option.some.inj h]
          exact .freeToken t d token ht hd
      case h_2 => exact absurd h (by simp)
  | executeEnqueueFree t =>
      simp only [executeEnqueueFree] at h
      split at h
      case h_1 d ht =>
        rw [← Option.some.inj h]
        exact .enqueueFree t d ht
      case h_2 => exact absurd h (by simp)

end Moves

/-! ## The invariant -/

variable [Fintype Thread]

/-- The conservation laws of the pool built with `D` data buffers and `T` tokens. -/
structure PoolInvariant (D T : ℕ) (s : PoolState Thread) : Prop where
  /-- Every data buffer is in one place: the free queue, the pending queue or one thread's hands. -/
  buffers : ∀ w, weight (onData w) s.freeQueue + weight (onData w) s.pendingReadQueue
    + heldWeight (dataWeight w) s.threads = weight w (List.range D)
  /-- Every token is in one place. -/
  tokens : ∀ w, weight w s.freeRequestTokenQueue + weight (onToken w) s.pendingReadQueue
    + heldWeight (tokenWeight w) s.threads = weight w (List.range T)
  /-- The callback of a read that passed one has run, or waits in one place. -/
  callbacks : ∀ r, weight (runWeight r) s.callbackRuns + weight (onCallback r) s.pendingReadQueue
    + heldWeight (waitingWeight r) s.threads = dueRuns (s.readBuffer r)
  /-- A callback ran on the buffer its read was given. -/
  runsOwn : ∀ run ∈ s.callbackRuns, s.readBuffer run.1 = some run.2
  /-- A pending entry holds the buffer its read was given. -/
  pendingOwn : ∀ d ∈ s.pendingReadQueue, d.OwnBuffer s.readBuffer
  /-- So does an entry in a thread's hands whose callback has not run. -/
  handsOwn : ∀ t, (s.threads t).OwnBuffer s.readBuffer
  /-- Reads not accepted yet were given no buffer. -/
  fresh : ∀ r, s.acceptedReads ≤ r → s.readBuffer r = none
  /-- `get_request_token` has not panicked. -/
  running : s.panicked = false

/-- The tokens in use: those not in `free_request_token_queue`. -/
def PoolState.tokensOut (s : PoolState Thread) (T : ℕ) : ℕ := T - s.freeRequestTokenQueue.length

/-- The data buffers in use: those not in `free_queue`. -/
def PoolState.buffersOut (s : PoolState Thread) (D : ℕ) : ℕ := D - s.freeQueue.length

/-- The counting weighting counts. -/
theorem weight_one {α : Type*} (q : List α) : weight (fun _ => 1) q = q.length := by
  induction q with
  | nil => rfl
  | cons a q ih => rw [weight_cons, ih, List.length_cons, Nat.add_comm]

/-- A pending entry's token weighs at most its buffer under the counting weighting. -/
theorem weight_onToken_le (q : List DataWithRequestToken) :
    weight (onToken fun _ => 1) q ≤ q.length := by
  induction q with
  | nil => exact le_refl 0
  | cons d q ih =>
      have hd : onToken (fun _ => 1) d ≤ 1 := by
        unfold onToken
        split <;> simp
      rw [weight_cons, List.length_cons]
      omega

/-- The buffers, counted. -/
theorem PoolInvariant.count_buffers {D T : ℕ} {s : PoolState Thread} (h : PoolInvariant D T s) :
    s.freeQueue.length + s.pendingReadQueue.length
      + heldWeight (dataWeight fun _ => 1) s.threads = D := by
  have hb : weight (fun _ => 1) s.freeQueue + weight (fun _ => 1) s.pendingReadQueue
      + heldWeight (dataWeight fun _ => 1) s.threads = weight (fun _ => 1) (List.range D) :=
    h.buffers fun _ => 1
  simpa only [weight_one, List.length_range] using hb

/-- The tokens, counted. -/
theorem PoolInvariant.count_tokens {D T : ℕ} {s : PoolState Thread} (h : PoolInvariant D T s) :
    s.freeRequestTokenQueue.length + weight (onToken fun _ => 1) s.pendingReadQueue
      + heldWeight (tokenWeight fun _ => 1) s.threads = T := by
  have ht := h.tokens fun _ => 1
  simpa only [weight_one, List.length_range] using ht

/-- **Tokens in use never outnumber buffers in use.** -/
theorem PoolInvariant.tokensOut_le {D T : ℕ} {s : PoolState Thread} (h : PoolInvariant D T s) :
    s.tokensOut T ≤ s.buffersOut D := by
  have hb := h.count_buffers
  have ht := h.count_tokens
  have hp := weight_onToken_le s.pendingReadQueue
  have hh := heldWeight_mono s.threads tokenWeight_le_dataWeight
  unfold PoolState.tokensOut PoolState.buffersOut
  omega

/-- A thread that holds a buffer without a token finds a token: otherwise the tokens in use, all
`T` of them, would be fewer than the buffers in use. -/
theorem PoolInvariant.token_available {D T : ℕ} (hDT : D ≤ T) {s : PoolState Thread}
    (h : PoolInvariant D T s) {t : Thread} {d : DataWithRequestToken}
    (ht : s.threads t = .acquired d) : s.freeRequestTokenQueue ≠ [] := by
  intro he
  have hb := h.count_buffers
  have hk := h.count_tokens
  have hp := weight_onToken_le s.pendingReadQueue
  have hlt : heldWeight (tokenWeight fun _ => 1) s.threads
      < heldWeight (dataWeight fun _ => 1) s.threads := by
    refine heldWeight_lt s.threads tokenWeight_le_dataWeight t ?_
    rw [ht]
    exact Nat.zero_lt_one
  rw [he, List.length_nil] at hk
  omega

/-! ## Preservation -/

/-- The constructors establish the laws. -/
theorem poolInvariant_init (D T : ℕ) : PoolInvariant D T (PoolState.init Thread D T) where
  buffers w := by
    have hfree : weight (onData w) (PoolState.init Thread D T).freeQueue
        = weight w (List.range D) := by
      simp only [PoolState.init, weight, List.map_map]
      rfl
    have hheld : heldWeight (dataWeight w) (PoolState.init Thread D T).threads = 0 :=
      heldWeight_const_zero rfl
    rw [hfree, hheld]
    rfl
  tokens w := by
    have hheld : heldWeight (tokenWeight w) (PoolState.init Thread D T).threads = 0 :=
      heldWeight_const_zero rfl
    rw [hheld]
    rfl
  callbacks r := by
    have hheld : heldWeight (waitingWeight r) (PoolState.init Thread D T).threads = 0 :=
      heldWeight_const_zero rfl
    rw [hheld]
    rfl
  runsOwn := by simp [PoolState.init]
  pendingOwn := by simp [PoolState.init]
  handsOwn _ := trivial
  fresh _ _ := rfl
  running := rfl

variable [DecidableEq Thread] {D T : ℕ} {s s' : PoolState Thread}

/-- Every move keeps every data buffer in one place. -/
theorem PoolMove.buffers (hm : PoolMove s s') (h : PoolInvariant D T s) (w : ℕ → ℕ) :
    weight (onData w) s'.freeQueue + weight (onData w) s'.pendingReadQueue
      + heldWeight (dataWeight w) s'.threads = weight w (List.range D) := by
  have hb := h.buffers w
  cases hm with
  | call t remoteIndex hasCallback ht =>
      have hu := heldWeight_update (dataWeight w) s.threads t (.spinning remoteIndex hasCallback)
      simp only [ht, dataWeight] at hu
      simp only [moveTo_freeQueue, moveTo_pendingReadQueue, moveTo_threads]
      omega
  | accept t i remoteIndex hasCallback d rest ht hd =>
      have hu := heldWeight_update (dataWeight w) s.threads t (.acquired { d with
        remoteIndex := remoteIndex,
        callback := if hasCallback then some s.acceptedReads else none })
      have hq := weight_of_dequeueAt (onData w) hd
      have hnone : dataWeight w (s.threads t) = 0 := by
        rcases ht with ht | ht <;> rw [ht] <;> rfl
      rw [hnone] at hu
      simp only [dataWeight, onData] at hu hq ⊢
      simp only [moveTo_freeQueue, moveTo_pendingReadQueue, moveTo_threads]
      omega
  | panic => exact hb
  | post t i d token rest ht hd =>
      have hu := heldWeight_update (dataWeight w) s.threads t
        (.posted { d with token := some token })
      simp only [ht, dataWeight, onData] at hu
      simp only [moveTo_freeQueue, moveTo_pendingReadQueue, moveTo_threads]
      omega
  | enqueuePending t d ht =>
      have hu := heldWeight_update (dataWeight w) s.threads t .idle
      simp only [ht, dataWeight] at hu
      simp only [moveTo_freeQueue, moveTo_pendingReadQueue, moveTo_threads, weight_append,
        weight_cons, weight_nil]
      omega
  | complete => exact hb
  | dequeuePending t i d rest ht hd =>
      have hu := heldWeight_update (dataWeight w) s.threads t (.dequeued d)
      have hq := weight_of_dequeueAt (onData w) hd
      simp only [ht, dataWeight] at hu
      simp only [moveTo_freeQueue, moveTo_pendingReadQueue, moveTo_threads]
      omega
  | callBack t d token ht hd hc =>
      have hu := heldWeight_update (dataWeight w) s.threads t (.calledBack d)
      simp only [ht, dataWeight] at hu
      simp only [moveTo_freeQueue, moveTo_pendingReadQueue, moveTo_threads]
      omega
  | freeToken t d token ht hd =>
      have hu := heldWeight_update (dataWeight w) s.threads t (.tokenFreed { d with token := none })
      simp only [ht, dataWeight, onData] at hu
      simp only [moveTo_freeQueue, moveTo_pendingReadQueue, moveTo_threads]
      omega
  | enqueueFree t d ht =>
      have hu := heldWeight_update (dataWeight w) s.threads t .idle
      simp only [ht, dataWeight] at hu
      simp only [moveTo_freeQueue, moveTo_pendingReadQueue, moveTo_threads, weight_append,
        weight_cons, weight_nil]
      omega

/-- Every move keeps every token in one place. -/
theorem PoolMove.tokens (hm : PoolMove s s') (h : PoolInvariant D T s) (w : ℕ → ℕ) :
    weight w s'.freeRequestTokenQueue + weight (onToken w) s'.pendingReadQueue
      + heldWeight (tokenWeight w) s'.threads = weight w (List.range T) := by
  have hk := h.tokens w
  cases hm with
  | call t remoteIndex hasCallback ht =>
      have hu := heldWeight_update (tokenWeight w) s.threads t (.spinning remoteIndex hasCallback)
      simp only [ht, tokenWeight] at hu
      simp only [moveTo_freeRequestTokenQueue, moveTo_pendingReadQueue, moveTo_threads]
      omega
  | accept t i remoteIndex hasCallback d rest ht hd =>
      have hu := heldWeight_update (tokenWeight w) s.threads t (.acquired { d with
        remoteIndex := remoteIndex,
        callback := if hasCallback then some s.acceptedReads else none })
      have hnone : tokenWeight w (s.threads t) = 0 := by
        rcases ht with ht | ht <;> rw [ht] <;> rfl
      rw [hnone] at hu
      simp only [tokenWeight] at hu
      simp only [moveTo_freeRequestTokenQueue, moveTo_pendingReadQueue, moveTo_threads]
      omega
  | panic => exact hk
  | post t i d token rest ht hd =>
      have hu := heldWeight_update (tokenWeight w) s.threads t
        (.posted { d with token := some token })
      have hq := weight_of_dequeueAt w hd
      simp only [ht, tokenWeight, onToken] at hu
      simp only [moveTo_freeRequestTokenQueue, moveTo_pendingReadQueue, moveTo_threads]
      omega
  | enqueuePending t d ht =>
      have hu := heldWeight_update (tokenWeight w) s.threads t .idle
      simp only [ht, tokenWeight] at hu
      simp only [moveTo_freeRequestTokenQueue, moveTo_pendingReadQueue, moveTo_threads,
        weight_append, weight_cons, weight_nil]
      omega
  | complete => exact hk
  | dequeuePending t i d rest ht hd =>
      have hu := heldWeight_update (tokenWeight w) s.threads t (.dequeued d)
      have hq := weight_of_dequeueAt (onToken w) hd
      simp only [ht, tokenWeight] at hu
      simp only [moveTo_freeRequestTokenQueue, moveTo_pendingReadQueue, moveTo_threads]
      omega
  | callBack t d token ht hd hc =>
      have hu := heldWeight_update (tokenWeight w) s.threads t (.calledBack d)
      simp only [ht, tokenWeight] at hu
      simp only [moveTo_freeRequestTokenQueue, moveTo_pendingReadQueue, moveTo_threads]
      omega
  | freeToken t d token ht hd =>
      have hu := heldWeight_update (tokenWeight w) s.threads t
        (.tokenFreed { d with token := none })
      have htoken : onToken w d = w token := by rw [onToken, hd]
      simp only [ht, tokenWeight] at hu
      simp only [moveTo_freeRequestTokenQueue, moveTo_pendingReadQueue, moveTo_threads,
        weight_append, weight_cons, weight_nil]
      omega
  | enqueueFree t d ht =>
      have hu := heldWeight_update (tokenWeight w) s.threads t .idle
      simp only [ht, tokenWeight] at hu
      simp only [moveTo_freeRequestTokenQueue, moveTo_pendingReadQueue, moveTo_threads]
      omega

omit [DecidableEq Thread] in
/-- Accepting a read only extends the history: the reads known before keep their buffer. -/
theorem readBuffer_accept (h : PoolInvariant D T s) {hasCallback : Bool} {b r b' : ℕ}
    (hr : s.readBuffer r = some b') :
    (if hasCallback then Function.update s.readBuffer s.acceptedReads (some b)
      else s.readBuffer) r = some b' := by
  have hne : r ≠ s.acceptedReads := by
    rintro rfl
    rw [h.fresh _ (le_refl _)] at hr
    exact absurd hr (by simp)
  split
  · rw [Function.update_of_ne hne, hr]
  · exact hr

/-- Every move keeps every callback waiting in one place until it runs. -/
theorem PoolMove.callbacks (hm : PoolMove s s') (h : PoolInvariant D T s) (r : ℕ) :
    weight (runWeight r) s'.callbackRuns + weight (onCallback r) s'.pendingReadQueue
      + heldWeight (waitingWeight r) s'.threads = dueRuns (s'.readBuffer r) := by
  have hc := h.callbacks r
  cases hm with
  | call t remoteIndex hasCallback ht =>
      have hu := heldWeight_update (waitingWeight r) s.threads t (.spinning remoteIndex hasCallback)
      simp only [ht, waitingWeight] at hu
      simp only [moveTo_callbackRuns, moveTo_pendingReadQueue, moveTo_threads, moveTo_readBuffer]
      omega
  | accept t i remoteIndex hasCallback d rest ht hd =>
      have hu := heldWeight_update (waitingWeight r) s.threads t (.acquired { d with
        remoteIndex := remoteIndex,
        callback := if hasCallback then some s.acceptedReads else none })
      have hnone : waitingWeight r (s.threads t) = 0 := by
        rcases ht with ht | ht <;> rw [ht] <;> rfl
      rw [hnone] at hu
      simp only [waitingWeight, onCallback] at hu
      simp only [moveTo_callbackRuns, moveTo_pendingReadQueue, moveTo_threads, moveTo_readBuffer]
      cases hasCallback with
      | false =>
          simp only [Bool.false_eq_true, if_false, reduceCtorEq] at hu ⊢
          omega
      | true =>
          simp only [if_true, Option.some.injEq] at hu ⊢
          by_cases hr : r = s.acceptedReads
          · subst hr
            rw [h.fresh _ (le_refl _)] at hc
            rw [if_pos rfl] at hu
            rw [Function.update_self]
            simp only [dueRuns] at hc ⊢
            omega
          · rw [if_neg (Ne.symm hr)] at hu
            rw [Function.update_of_ne hr]
            omega
  | panic => exact hc
  | post t i d token rest ht hd =>
      have hu := heldWeight_update (waitingWeight r) s.threads t
        (.posted { d with token := some token })
      simp only [ht, waitingWeight, onCallback] at hu
      simp only [moveTo_callbackRuns, moveTo_pendingReadQueue, moveTo_threads, moveTo_readBuffer]
      omega
  | enqueuePending t d ht =>
      have hu := heldWeight_update (waitingWeight r) s.threads t .idle
      simp only [ht, waitingWeight] at hu
      simp only [moveTo_callbackRuns, moveTo_pendingReadQueue, moveTo_threads, moveTo_readBuffer,
        weight_append, weight_cons, weight_nil]
      omega
  | complete => exact hc
  | dequeuePending t i d rest ht hd =>
      have hu := heldWeight_update (waitingWeight r) s.threads t (.dequeued d)
      have hq := weight_of_dequeueAt (onCallback r) hd
      simp only [ht, waitingWeight] at hu
      simp only [moveTo_callbackRuns, moveTo_pendingReadQueue, moveTo_threads, moveTo_readBuffer]
      omega
  | callBack t d token ht hd hcomp =>
      have hu := heldWeight_update (waitingWeight r) s.threads t (.calledBack d)
      simp only [ht, waitingWeight, onCallback] at hu
      simp only [moveTo_callbackRuns, moveTo_pendingReadQueue, moveTo_threads, moveTo_readBuffer]
      -- the run enters the history exactly when it leaves the thread's hands
      cases hcb : d.callback with
      | none =>
          rw [hcb, if_neg (by simp)] at hu
          simp only
          omega
      | some r' =>
          rw [hcb] at hu
          simp only [Option.some.injEq] at hu
          simp only [weight_append, weight_cons, weight_nil, runWeight]
          omega
  | freeToken t d token ht hd =>
      have hu := heldWeight_update (waitingWeight r) s.threads t
        (.tokenFreed { d with token := none })
      simp only [ht, waitingWeight] at hu
      simp only [moveTo_callbackRuns, moveTo_pendingReadQueue, moveTo_threads, moveTo_readBuffer]
      omega
  | enqueueFree t d ht =>
      have hu := heldWeight_update (waitingWeight r) s.threads t .idle
      simp only [ht, waitingWeight] at hu
      simp only [moveTo_callbackRuns, moveTo_pendingReadQueue, moveTo_threads, moveTo_readBuffer]
      omega

/-- Every move keeps the reads' own buffers: in the history, in the pending queue and in the
threads' hands. -/
theorem PoolMove.own (hm : PoolMove s s') (h : PoolInvariant D T s) :
    (∀ run ∈ s'.callbackRuns, s'.readBuffer run.1 = some run.2) ∧
      (∀ d ∈ s'.pendingReadQueue, d.OwnBuffer s'.readBuffer) ∧
      ∀ t, (s'.threads t).OwnBuffer s'.readBuffer := by
  -- a thread that moves to `x` only has to own what it holds there
  have hands : ∀ (t : Thread) (x : ThreadState), x.OwnBuffer s.readBuffer →
      ∀ t', (Function.update s.threads t x t').OwnBuffer s.readBuffer := by
    intro t x hx t'
    by_cases ht' : t' = t
    · subst ht'
      rwa [Function.update_self]
    · rw [Function.update_of_ne ht']
      exact h.handsOwn t'
  cases hm with
  | call t remoteIndex hasCallback ht =>
      exact ⟨h.runsOwn, h.pendingOwn, hands t (.spinning remoteIndex hasCallback) trivial⟩
  | accept t i remoteIndex hasCallback d rest ht hd =>
      simp only [moveTo_callbackRuns, moveTo_pendingReadQueue, moveTo_threads, moveTo_readBuffer]
      refine ⟨fun run hrun => readBuffer_accept h (h.runsOwn run hrun),
        fun d' hd' r hr => readBuffer_accept h (h.pendingOwn d' hd' r hr), fun t' => ?_⟩
      by_cases ht' : t' = t
      · subst ht'
        rw [Function.update_self]
        intro r hr
        cases hasCallback with
        | false => exact absurd hr (by simp)
        | true =>
            simp only [if_true, Option.some.injEq] at hr ⊢
            rw [← hr, Function.update_self]
      · rw [Function.update_of_ne ht']
        have ho := h.handsOwn t'
        generalize s.threads t' = x at ho
        cases x <;> first
          | trivial
          | exact fun r hr => readBuffer_accept h (ho r hr)
  | panic t d ht he => exact ⟨h.runsOwn, h.pendingOwn, h.handsOwn⟩
  | post t i d token rest ht hd =>
      have ho := h.handsOwn t
      rw [ht] at ho
      exact ⟨h.runsOwn, h.pendingOwn, hands t _ ho⟩
  | enqueuePending t d ht =>
      have ho := h.handsOwn t
      rw [ht] at ho
      refine ⟨h.runsOwn, fun d' hd' => ?_, hands t _ trivial⟩
      rw [moveTo_pendingReadQueue, List.mem_append, List.mem_singleton] at hd'
      rcases hd' with hd' | rfl
      · exact h.pendingOwn d' hd'
      · exact ho
  | complete token ht => exact ⟨h.runsOwn, h.pendingOwn, h.handsOwn⟩
  | dequeuePending t i d rest ht hd =>
      exact ⟨h.runsOwn, fun d' hd' => h.pendingOwn d' (mem_of_mem_dequeueAt hd hd'),
        hands t (.dequeued d) (h.pendingOwn d (mem_of_dequeueAt hd))⟩
  | callBack t d token ht hd hc =>
      have ho : d.OwnBuffer s.readBuffer := by
        have := h.handsOwn t
        rwa [ht] at this
      refine ⟨fun run hrun => ?_, h.pendingOwn, hands t (.calledBack d) trivial⟩
      rw [moveTo_callbackRuns] at hrun
      cases hcb : d.callback with
      | none =>
          rw [hcb] at hrun
          exact h.runsOwn run hrun
      | some r =>
          rw [hcb] at hrun
          rcases List.mem_append.mp hrun with hrun | hrun
          · exact h.runsOwn run hrun
          · rw [List.mem_singleton.mp hrun]
            exact ho r hcb
  | freeToken t d token ht hd =>
      exact ⟨h.runsOwn, h.pendingOwn, hands t (.tokenFreed { d with token := none }) trivial⟩
  | enqueueFree t d ht => exact ⟨h.runsOwn, h.pendingOwn, hands t .idle trivial⟩

/-- Every move keeps the numbers of future reads unused. -/
theorem PoolMove.fresh (hm : PoolMove s s') (h : PoolInvariant D T s) (r : ℕ)
    (hr : s'.acceptedReads ≤ r) : s'.readBuffer r = none := by
  cases hm with
  | accept t i remoteIndex hasCallback d rest ht hd =>
      simp only [moveTo_acceptedReads, moveTo_readBuffer] at hr ⊢
      cases hasCallback with
      | false => exact h.fresh r (by omega)
      | true =>
          rw [if_pos rfl, Function.update_of_ne (by omega)]
          exact h.fresh r (by omega)
  | call | panic | post | enqueuePending | complete | dequeuePending | callBack | freeToken
  | enqueueFree => exact h.fresh r hr

/-- With at least as many tokens as buffers no move is a panic. -/
theorem PoolMove.running (hDT : D ≤ T) (hm : PoolMove s s') (h : PoolInvariant D T s) :
    s'.panicked = false := by
  cases hm with
  | panic t d ht he => exact absurd he (h.token_available hDT ht)
  | call | accept | post | enqueuePending | complete | dequeuePending | callBack | freeToken
  | enqueueFree => exact h.running

/-- **The step lemma**: one move preserves every law of the pool. -/
theorem PoolInvariant.step (hDT : D ≤ T) (h : PoolInvariant D T s) {l : PoolLabel Thread}
    (hs : poolStep s l = some s') : PoolInvariant D T s' := by
  have hm := (poolMove_of_poolStep hs).2
  obtain ⟨hruns, hpending, hhands⟩ := hm.own h
  exact ⟨hm.buffers h, hm.tokens h, hm.callbacks h, hruns, hpending, hhands, hm.fresh h,
    hm.running hDT h⟩

/-- **The run lemma**: the laws hold in every reached state. -/
theorem poolInvariant_of_reachable (hDT : D ≤ T)
    (hs : Reachable poolStep (PoolState.init Thread D T) s) : PoolInvariant D T s :=
  hs.invariant (poolInvariant_init D T) fun _ _ _ _ h _ hstep => h.step hDT hstep

end TwigKV.ReadPool
