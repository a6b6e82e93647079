import TwigKV.ReadPool.PoolHistory

/-! # The read pool empties

When `read` is not called any more, the threads in `read` and `execute_pending` and the network card
have a bounded number of moves left, in any order. As long as one thread outside `read` goes on with
`execute_pending`, none of them gets stuck on the way: there is a token for everyone who asks for
one, every token waited for belongs to a read that the card can complete, and the buffers that
threads in `read` spin for come back. At the end all buffers and tokens are free and every accepted
read has been called back once (`readPool_empties`). -/

namespace TwigKV.ReadPool

variable {Thread : Type*}

/-! ## Tokens in hand -/

/-- The entry a thread holds after its read was posted has a token. -/
def ThreadState.HasToken : ThreadState → Prop
  | .idle | .spinning _ _ | .acquired _ | .tokenFreed _ => True
  | .posted d | .dequeued d | .calledBack d => ∃ token, d.token = some token

/-- So has every entry that was posted. -/
structure TokensSet (s : PoolState Thread) : Prop where
  /-- The entries of `pending_read_queue`. -/
  pendingReadQueue : ∀ d ∈ s.pendingReadQueue, ∃ token, d.token = some token
  /-- The entries in threads' hands. -/
  threads : ∀ t, (s.threads t).HasToken

/-- Initially nothing was posted. -/
theorem tokensSet_init (D T : ℕ) : TokensSet (PoolState.init Thread D T) where
  pendingReadQueue := fun _ hmem => absurd hmem List.not_mem_nil
  threads := fun _ => trivial

/-! ## Reads to complete -/

/-- The reads that the network card has still to complete. -/
def notCompleted (T : ℕ) (s : PoolState Thread) : Finset ℕ :=
  (Finset.range T).filter fun token =>
    token ∉ s.freeRequestTokenQueue ∧ s.completed token = false

/-- A read has completed: one less. -/
theorem card_notCompleted_complete {T : ℕ} {s : PoolState Thread} {token : ℕ} (hT : token < T)
    (hfree : token ∉ s.freeRequestTokenQueue) (hcompleted : s.completed token = false) :
    (notCompleted T { s with completed := Function.update s.completed token true }).card
      < (notCompleted T s).card := by
  refine Finset.card_lt_card (Finset.ssubset_iff_subset_ne.mpr ⟨?_, ?_⟩)
  · intro y hy
    rw [notCompleted, Finset.mem_filter] at hy ⊢
    refine ⟨hy.1, hy.2.1, ?_⟩
    have hupdate : Function.update s.completed token true y = false := hy.2.2
    rw [Function.update_apply] at hupdate
    split at hupdate
    · cases hupdate
    · exact hupdate
  · intro heq
    have hmem : token ∈ notCompleted T s :=
      Finset.mem_filter.mpr ⟨Finset.mem_range.mpr hT, hfree, hcompleted⟩
    rw [← heq, notCompleted, Finset.mem_filter] at hmem
    have hupdate : Function.update s.completed token true token = false := hmem.2.2
    rw [Function.update_self] at hupdate
    cases hupdate

/-- A token in a thread's hands is one of the pool's, and not in `free_request_token_queue`. -/
theorem PoolInvariant.token_inUse [Fintype Thread] {D T : ℕ} {s : PoolState Thread}
    (h : PoolInvariant D T s) {t : Thread} {token : ℕ}
    (ht : tokenWeight (fun x => if x = token then 1 else 0) (s.threads t) = 1) :
    token < T ∧ token ∉ s.freeRequestTokenQueue := by
  have hlaw := h.tokens fun x => if x = token then 1 else 0
  rw [weight_indicator, weight_indicator] at hlaw
  have hheld : 1 ≤ heldWeight (tokenWeight fun x => if x = token then 1 else 0) s.threads :=
    ht.symm.le.trans (Finset.single_le_sum
      (f := fun t => tokenWeight (fun x => if x = token then 1 else 0) (s.threads t))
      (fun _ _ => Nat.zero_le _) (Finset.mem_univ t))
  have hrange : (List.range T).countP (fun x => decide (x = token)) ≤ 1 := by
    rw [show (fun x : ℕ => decide (x = token)) = (· == token) from rfl, ← List.count]
    exact List.nodup_iff_count_le_one.mp List.nodup_range token
  refine ⟨?_, ?_⟩
  · have hpos : 0 < (List.range T).countP (fun x => decide (x = token)) := by omega
    obtain ⟨x, hmem, hx⟩ := List.countP_pos_iff.mp hpos
    rw [← of_decide_eq_true hx]
    exact List.mem_range.mp hmem
  · intro hfree
    have hpos : 0 < s.freeRequestTokenQueue.countP (fun x => decide (x = token)) :=
      List.countP_pos_iff.mpr ⟨token, hfree, decide_eq_true rfl⟩
    omega

variable [DecidableEq Thread]

/-- One thread moves to where it has a token, if it needs one. -/
theorem hasToken_update {threads : Thread → ThreadState} (h : ∀ t, (threads t).HasToken)
    (t : Thread) {x : ThreadState} (hx : x.HasToken) (t' : Thread) :
    (Function.update threads t x t').HasToken := by
  rw [Function.update_apply]
  split
  · exact hx
  · exact h t'

/-- Every move keeps posted entries with their tokens. -/
theorem TokensSet.step {s s' : PoolState Thread} (h : TokensSet s) (hm : PoolMove s s') :
    TokensSet s' := by
  cases hm with
  | call t remoteIndex hasCallback ht =>
    exact ⟨h.pendingReadQueue, hasToken_update h.threads t trivial⟩
  | accept t i remoteIndex hasCallback d rest ht hd =>
    exact ⟨h.pendingReadQueue, hasToken_update h.threads t trivial⟩
  | panic t d ht he => exact ⟨h.pendingReadQueue, h.threads⟩
  | post t i d token rest ht hd =>
    exact ⟨h.pendingReadQueue, hasToken_update h.threads t ⟨token, rfl⟩⟩
  | enqueuePending t d ht =>
    have htoken := h.threads t
    rw [ht] at htoken
    exact ⟨List.forall_mem_append.mpr ⟨h.pendingReadQueue, List.forall_mem_singleton.mpr htoken⟩,
      hasToken_update h.threads t trivial⟩
  | complete token ht => exact ⟨h.pendingReadQueue, h.threads⟩
  | dequeuePending t i d rest ht hd =>
    exact ⟨fun e he => h.pendingReadQueue e (mem_of_mem_dequeueAt hd he),
      hasToken_update h.threads t (h.pendingReadQueue d (mem_of_dequeueAt hd))⟩
  | callBack t d token ht hd hc =>
    exact ⟨h.pendingReadQueue, hasToken_update h.threads t ⟨token, hd⟩⟩
  | freeToken t d token ht hd => exact ⟨h.pendingReadQueue, hasToken_update h.threads t trivial⟩
  | enqueueFree t d ht => exact ⟨h.pendingReadQueue, hasToken_update h.threads t trivial⟩

/-! ## The moves left -/

/-- The move belongs to a drain: `read` is not called any more, and a read completes once. -/
def drains (T : ℕ) (s : PoolState Thread) : PoolLabel Thread → Bool
  | .readCall _ _ _ => false
  | .readDequeueFree t _ _ _ => decide (s.threads t ≠ .idle)
  | .readCompletes token => decide (token < T ∧ s.completed token = false)
  | .readPost _ _ | .readEnqueuePending _ | .executeDequeuePending _ _ | .executeCallback _
  | .executeFreeRequestToken _ | .executeEnqueueFree _ => true

/-- The moves of a drain. -/
def drainStep (T : ℕ) (s : PoolState Thread) (l : PoolLabel Thread) : Option (PoolState Thread) :=
  if drains T s l then poolStep s l else none

/-- The moves a thread has left with the entry it holds, and others with it afterwards. -/
def movesLeft : ThreadState → ℕ
  | .idle => 0
  | .spinning _ _ => 8
  | .acquired _ => 7
  | .posted _ => 5
  | .dequeued _ => 3
  | .calledBack _ => 2
  | .tokenFreed _ => 1

/-- A token is taken and reset: one more read to complete, at most. -/
theorem card_notCompleted_post {T : ℕ} {s : PoolState Thread} {i token : ℕ} {rest : List ℕ}
    (hd : dequeueAt s.freeRequestTokenQueue i = some (token, rest)) {x : ThreadState} (t : Thread) :
    (notCompleted T ({ s with
      freeRequestTokenQueue := rest
      completed := Function.update s.completed token false }.moveTo t x)).card
      ≤ (notCompleted T s).card + 1 := by
  refine (Finset.card_le_card ?_).trans (Finset.card_insert_le token (notCompleted T s))
  intro y hy
  rw [notCompleted, Finset.mem_filter] at hy
  obtain ⟨hrange, hrest, hcompleted⟩ := hy
  rw [Finset.mem_insert]
  by_cases hsame : y = token
  · exact Or.inl hsame
  · right
    have hsame' : s.completed y = false := by
      have hupdate : Function.update s.completed token false y = false := hcompleted
      rwa [Function.update_of_ne hsame] at hupdate
    refine Finset.mem_filter.mpr ⟨hrange, ?_, hsame'⟩
    rw [(dequeueAt_perm hd).mem_iff, List.mem_cons]
    exact fun hmem => hmem.elim hsame hrest

variable [Fintype Thread]

/-- The moves left. -/
def workLeft (T : ℕ) (s : PoolState Thread) : ℕ :=
  heldWeight movesLeft s.threads + 4 * s.pendingReadQueue.length + (notCompleted T s).card

/-- A thread moves on with what it holds: what is left in all hands. -/
theorem movesLeft_update (s : PoolState Thread) (t : Thread) {x : ThreadState}
    (ht : s.threads t = x) (y : ThreadState) :
    heldWeight movesLeft (Function.update s.threads t y) + movesLeft x
      = heldWeight movesLeft s.threads + movesLeft y := by
  rw [← ht]
  exact heldWeight_update movesLeft s.threads t y

/-- **Every move of a drain is progress**, and reads keep their buffers. -/
theorem workLeft_drainStep {D T : ℕ} (hDT : D ≤ T) {s s' : PoolState Thread}
    (h : PoolInvariant D T s) {l : PoolLabel Thread} (hs : drainStep T s l = some s') :
    poolStep s l = some s' ∧ workLeft T s' < workLeft T s ∧
      ∀ r b, s.readBuffer r = some b → s'.readBuffer r = some b := by
  unfold drainStep at hs
  split at hs
  · next hdrains =>
    refine ⟨hs, ?_⟩
    unfold poolStep at hs
    rw [if_neg (by rw [h.running]; exact Bool.false_ne_true)] at hs
    cases l with
    | readCall => cases hdrains
    | readDequeueFree t i remoteIndex hasCallback =>
      simp only [readDequeueFree] at hs
      split at hs
      · next ht =>
        obtain ⟨⟨d, rest⟩, -, rfl⟩ := Option.map_eq_some_iff.mp hs
        -- a thread that was between calls does not begin a read
        have hspins := ht.resolve_left (of_decide_eq_true hdrains)
        have hmoves := movesLeft_update s t hspins (.acquired { d with
          remoteIndex := remoteIndex
          callback := if hasCallback then some s.acceptedReads else none })
        refine ⟨?_, fun r b hr => readBuffer_accept h hr⟩
        show heldWeight movesLeft (Function.update s.threads t _)
          + 4 * s.pendingReadQueue.length + (notCompleted T s).card < workLeft T s
        simp only [workLeft, movesLeft] at hmoves ⊢
        omega
      · cases hs
    | readPost t i =>
      simp only [readPost] at hs
      split at hs
      · next d ht =>
        have hsome : s.freeRequestTokenQueue.isEmpty = false := by
          rw [List.isEmpty_eq_false_iff]
          exact h.token_available hDT ht
        rw [hsome, if_neg Bool.false_ne_true] at hs
        obtain ⟨⟨token, rest⟩, hd, rfl⟩ := Option.map_eq_some_iff.mp hs
        have hcard := @card_notCompleted_post _ _ T s i token rest hd
          (.posted { d with token := some token }) t
        have hmoves := movesLeft_update s t ht (.posted { d with token := some token })
        refine ⟨?_, fun _ _ hr => hr⟩
        simp only [workLeft, moveTo_threads, moveTo_pendingReadQueue, movesLeft] at hmoves ⊢
        omega
      · cases hs
    | readEnqueuePending t =>
      simp only [readEnqueuePending] at hs
      split at hs
      · next d ht =>
        cases hs
        have hmoves := movesLeft_update s t ht .idle
        refine ⟨?_, fun _ _ hr => hr⟩
        show heldWeight movesLeft (Function.update s.threads t .idle)
          + 4 * (s.pendingReadQueue ++ [d]).length + (notCompleted T s).card < workLeft T s
        simp only [workLeft, movesLeft, List.length_append, List.length_singleton] at hmoves ⊢
        omega
      · cases hs
    | readCompletes token =>
      have hcan := of_decide_eq_true hdrains
      simp only [readCompletes] at hs
      split at hs
      · cases hs
      · next hfree =>
        cases hs
        have hcard := card_notCompleted_complete hcan.1 hfree hcan.2
        refine ⟨?_, fun _ _ hr => hr⟩
        simp only [workLeft]
        omega
    | executeDequeuePending t i =>
      simp only [executeDequeuePending] at hs
      split at hs
      · next ht =>
        obtain ⟨⟨d, rest⟩, hd, rfl⟩ := Option.map_eq_some_iff.mp hs
        have hlength := (dequeueAt_perm hd).length_eq
        have hmoves := movesLeft_update s t ht (.dequeued d)
        refine ⟨?_, fun _ _ hr => hr⟩
        show heldWeight movesLeft (Function.update s.threads t (.dequeued d))
          + 4 * rest.length + (notCompleted T s).card < workLeft T s
        simp only [workLeft, movesLeft, List.length_cons] at hmoves hlength ⊢
        omega
      · cases hs
    | executeCallback t =>
      simp only [executeCallback] at hs
      split at hs
      · next d ht =>
        split at hs
        · cases hs
        · split at hs
          · cases hs
            have hmoves := movesLeft_update s t ht (.calledBack d)
            refine ⟨?_, fun _ _ hr => hr⟩
            show heldWeight movesLeft (Function.update s.threads t (.calledBack d))
              + 4 * s.pendingReadQueue.length + (notCompleted T s).card < workLeft T s
            simp only [workLeft, movesLeft] at hmoves ⊢
            omega
          · cases hs
      · cases hs
    | executeFreeRequestToken t =>
      simp only [executeFreeRequestToken] at hs
      split at hs
      · next d ht =>
        split at hs
        · cases hs
        · next token hd =>
          cases hs
          have hmoves := movesLeft_update s t ht (.tokenFreed { d with token := none })
          -- a token that is given back is waited for no more
          have hcard : (notCompleted T ({ s with
              freeRequestTokenQueue := s.freeRequestTokenQueue ++ [token]
              }.moveTo t (.tokenFreed { d with token := none }))).card
              ≤ (notCompleted T s).card := by
            refine Finset.card_le_card fun y hy => ?_
            rw [notCompleted, Finset.mem_filter] at hy ⊢
            exact ⟨hy.1, fun hmem => hy.2.1 (List.mem_append_left _ hmem), hy.2.2⟩
          refine ⟨?_, fun _ _ hr => hr⟩
          simp only [workLeft, moveTo_threads, moveTo_pendingReadQueue, movesLeft] at hmoves ⊢
          omega
      · cases hs
    | executeEnqueueFree t =>
      simp only [executeEnqueueFree] at hs
      split at hs
      · next d ht =>
        cases hs
        have hmoves := movesLeft_update s t ht .idle
        refine ⟨?_, fun _ _ hr => hr⟩
        show heldWeight movesLeft (Function.update s.threads t .idle)
          + 4 * s.pendingReadQueue.length + (notCompleted T s).card < workLeft T s
        simp only [workLeft, movesLeft] at hmoves ⊢
        omega
      · cases hs
  · cases hs

/-! ## Where nothing moves -/

/-- A queue that is not empty hands out its first element. -/
theorem dequeueAt_head {α : Type*} {q : List α} (h : q ≠ []) :
    ∃ a rest, dequeueAt q 0 = some (a, rest) := by
  obtain ⟨a, rest, rfl⟩ := List.exists_cons_of_ne_nil h
  exact ⟨a, rest, rfl⟩

variable {D T : ℕ} {s s' : PoolState Thread}

/-- What comes next for a thread in the middle of `read` or `execute_pending`: its own queue
operation, or the completion it waits for. -/
inductive NextMove (t : Thread) : ThreadState → PoolLabel Thread → Prop
  /-- It posts. -/
  | post (d : DataWithRequestToken) (i : ℕ) : NextMove t (.acquired d) (.readPost t i)
  /-- `read` returns. -/
  | enqueuePending (d : DataWithRequestToken) : NextMove t (.posted d) (.readEnqueuePending t)
  /-- The network card completes its read. -/
  | complete (d : DataWithRequestToken) (token : ℕ) :
      NextMove t (.dequeued d) (.readCompletes token)
  /-- It runs the callback. -/
  | callBack (d : DataWithRequestToken) : NextMove t (.dequeued d) (.executeCallback t)
  /-- It gives its token back. -/
  | freeToken (d : DataWithRequestToken) : NextMove t (.calledBack d) (.executeFreeRequestToken t)
  /-- It gives its buffer back. -/
  | enqueueFree (d : DataWithRequestToken) : NextMove t (.tokenFreed d) (.executeEnqueueFree t)

/-- **No thread gets stuck** with a buffer in hand. -/
theorem exists_nextMove (hDT : D ≤ T) (h : PoolInvariant D T s) (htokens : TokensSet s) {t : Thread}
    (hbusy : (s.threads t).buffer ≠ none) :
    ∃ l, NextMove t (s.threads t) l ∧ drainStep T s l ≠ none := by
  have hset := htokens.threads t
  cases ht : s.threads t with
  | idle | spinning =>
    rw [ht] at hbusy
    exact absurd rfl hbusy
  | acquired d =>
    obtain ⟨token, rest, hd⟩ := dequeueAt_head (h.token_available hDT ht)
    refine ⟨_, .post d 0, ?_⟩
    simp [drainStep, drains, poolStep, h.running, readPost, ht, hd, h.token_available hDT ht]
  | posted d =>
    refine ⟨_, .enqueuePending d, ?_⟩
    simp [drainStep, drains, poolStep, h.running, readEnqueuePending, ht]
  | dequeued d =>
    rw [ht] at hset
    obtain ⟨token, htoken⟩ := hset
    obtain ⟨hrange, hfree⟩ : token < T ∧ token ∉ s.freeRequestTokenQueue := by
      refine @PoolInvariant.token_inUse _ _ D T s h t token ?_
      rw [ht, tokenWeight, onToken, htoken]
      exact if_pos rfl
    cases hcompleted : s.completed token with
    | false =>
      refine ⟨_, .complete d token, ?_⟩
      simp [drainStep, drains, hrange, hcompleted, poolStep, h.running, readCompletes, hfree]
    | true =>
      refine ⟨_, .callBack d, ?_⟩
      simp [drainStep, drains, poolStep, h.running, executeCallback, ht, htoken, hcompleted]
  | calledBack d =>
    rw [ht] at hset
    obtain ⟨token, htoken⟩ := hset
    refine ⟨_, .freeToken d, ?_⟩
    simp [drainStep, drains, poolStep, h.running, executeFreeRequestToken, ht, htoken]
  | tokenFreed d =>
    refine ⟨_, .enqueueFree d, ?_⟩
    simp [drainStep, drains, poolStep, h.running, executeEnqueueFree, ht]

/-- An idle thread takes a pending entry. -/
theorem executeDequeuePending_ne_none (h : PoolInvariant D T s) {t : Thread}
    (ht : s.threads t = .idle) (hpending : s.pendingReadQueue ≠ []) :
    drainStep T s (.executeDequeuePending t 0) ≠ none := by
  obtain ⟨d, rest, hd⟩ := dequeueAt_head hpending
  simp [drainStep, drains, poolStep, h.running, executeDequeuePending, ht, hd]

/-- The thread is in a call of `read`. -/
def ThreadState.InRead : ThreadState → Prop
  | .spinning _ _ | .acquired _ | .posted _ => True
  | .idle | .dequeued _ | .calledBack _ | .tokenFreed _ => False

omit [Fintype Thread] in
/-- A drain begins no `read`. -/
theorem not_inRead_drainStep {l : PoolLabel Thread} (hs : drainStep T s l = some s') {t : Thread}
    (ht : ¬ (s.threads t).InRead) : ¬ (s'.threads t).InRead := by
  unfold drainStep at hs
  split at hs
  · next hdrains =>
    rcases threads_poolStep hs with hsame | ⟨t', x, hmoves, hupdate⟩
    · rw [hsame]
      exact ht
    · rw [hupdate, Function.update_apply]
      split
      · next heq =>
        subst heq
        unfold poolStep at hs
        split at hs
        · cases hs
        cases hmoves with
        | call => cases hdrains
        | acquire d =>
          simp only [readDequeueFree] at hs
          split at hs
          · next hcalled =>
            rw [hcalled.resolve_left (of_decide_eq_true hdrains)] at ht
            exact absurd trivial ht
          · cases hs
        | post d =>
          simp only [readPost] at hs
          split at hs
          · next hacquired =>
            rw [hacquired] at ht
            exact absurd trivial ht
          · cases hs
        | enqueuePending | dequeue | callBack | freeToken | enqueueFree => exact id
      · exact ht
  · cases hs

/-- **A drain only stops when it is done**, as long as somebody calls `execute_pending`: with
buffers at all, nobody waits for one. -/
theorem drained_of_stuck (hDT : D ≤ T) (h : PoolInvariant D T s) (htokens : TokensSet s)
    {w : Thread} (hw : ¬ (s.threads w).InRead) (hstuck : Stuck (drainStep T) s) :
    (∀ t, (s.threads t).buffer = none) ∧ s.pendingReadQueue = [] := by
  have hnone : ∀ t, (s.threads t).buffer = none := by
    intro t
    by_contra hbusy
    obtain ⟨l, -, henabled⟩ := exists_nextMove hDT h htokens hbusy
    exact henabled (hstuck l)
  refine ⟨hnone, ?_⟩
  by_contra hpending
  have hidle : s.threads w = .idle := by
    have hempty := hnone w
    cases hat : s.threads w with
    | idle => rfl
    | spinning =>
      rw [hat] at hw
      exact absurd trivial hw
    | acquired | posted | dequeued | calledBack | tokenFreed =>
      rw [hat] at hempty
      cases hempty
  exact executeDequeuePending_ne_none h hidle hpending (hstuck _)

omit [DecidableEq Thread] in
/-- Where no thread holds a buffer and no read is pending, buffers and tokens are back in their
queues and no callback waits. -/
theorem PoolInvariant.drained (h : PoolInvariant D T s) (hnone : ∀ t, (s.threads t).buffer = none)
    (hpending : s.pendingReadQueue = []) :
    s.freeQueue.length = D ∧ s.freeRequestTokenQueue.length = T ∧ ∀ r, s.waitingFor r = 0 := by
  have hbuffers := h.count_buffers
  have htokens := h.count_tokens
  have hhands : ∀ t, dataWeight (fun _ => 1) (s.threads t) = 0 ∧
      tokenWeight (fun _ => 1) (s.threads t) = 0 ∧ (s.threads t).waitingRead = none := by
    intro t
    have hempty := hnone t
    cases hat : s.threads t with
    | idle | spinning => exact ⟨rfl, rfl, rfl⟩
    | acquired | posted | dequeued | calledBack | tokenFreed =>
      rw [hat] at hempty
      cases hempty
  have hnoBuffer : heldWeight (dataWeight fun _ => 1) s.threads = 0 :=
    Finset.sum_eq_zero fun t _ => (hhands t).1
  have hnoToken : heldWeight (tokenWeight fun _ => 1) s.threads = 0 :=
    Finset.sum_eq_zero fun t _ => (hhands t).2.1
  rw [hpending, hnoBuffer] at hbuffers
  rw [hpending, hnoToken] at htokens
  refine ⟨hbuffers, htokens, fun r => ?_⟩
  simp [PoolState.waitingFor, hpending, fun t => (hhands t).2.2]

/-- Where buffers are free, nobody spins. -/
theorem idle_of_stuck (h : PoolInvariant D T s) (hstuck : Stuck (drainStep T) s)
    (hnone : ∀ t, (s.threads t).buffer = none) (hfree : s.freeQueue ≠ []) (t : Thread) :
    s.threads t = .idle := by
  have hempty := hnone t
  cases hat : s.threads t with
  | idle => rfl
  | spinning remoteIndex hasCallback =>
    obtain ⟨d, rest, hd⟩ := dequeueAt_head hfree
    have henabled := hstuck (.readDequeueFree t 0 remoteIndex hasCallback)
    simp [drainStep, drains, poolStep, h.running, readDequeueFree, hat, hd] at henabled
  | acquired | posted | dequeued | calledBack | tokenFreed =>
    rw [hat] at hempty
    cases hempty

/-! ## Runs -/

/-- A drain keeps the laws of the pool, and reads keep their buffers. -/
theorem drained_run (hDT : D ≤ T) {ls : List (PoolLabel Thread)} (h : PoolInvariant D T s)
    (htokens : TokensSet s) {w : Thread} (hw : ¬ (s.threads w).InRead)
    (hr : runLabels (drainStep T) s ls = some s') :
    PoolInvariant D T s' ∧ TokensSet s' ∧ ¬ (s'.threads w).InRead ∧
      ∀ r b, s.readBuffer r = some b → s'.readBuffer r = some b := by
  induction ls generalizing s with
  | nil =>
    rw [runLabels, Option.some.injEq] at hr
    exact hr ▸ ⟨h, htokens, hw, fun _ _ hread => hread⟩
  | cons l ls ih =>
    rw [runLabels, Option.bind_eq_some_iff] at hr
    obtain ⟨s₁, hs, hr⟩ := hr
    obtain ⟨hstep, -, hbuffer⟩ := workLeft_drainStep hDT h hs
    obtain ⟨hend, hset, houtside, hkept⟩ := ih (h.step hDT hstep)
      (htokens.step (poolMove_of_poolStep hstep).2) (not_inRead_drainStep hs hw) hr
    exact ⟨hend, hset, houtside, fun r b hread => hkept r b (hbuffer r b hread)⟩

omit [Fintype Thread] in
/-- Posted entries have tokens in every reached state. -/
theorem tokensSet_of_reachable (hs : Reachable poolStep (PoolState.init Thread D T) s) :
    TokensSet s :=
  hs.invariant (tokensSet_init D T) fun _ _ _ _ h _ hstep =>
    h.step (poolMove_of_poolStep hstep).2

/-- **The read pool empties.** From every state that any interleaving reaches and in which some
thread is outside `read`, let `read` not be called any more, let that thread go on with
`execute_pending` and let the network card complete what was posted. Then every interleaving of the
threads' moves comes to an end after a bounded number of them. Where it ends, all data buffers and
all request tokens are back in their queues, no thread spins in `read` as long as there are buffers
at all, and every read that passed a callback has had it run exactly once. -/
theorem readPool_empties (hDT : D ≤ T) (hs : Reachable poolStep (PoolState.init Thread D T) s)
    {w : Thread} (hw : ¬ (s.threads w).InRead) :
    (∀ ls s', runLabels (drainStep T) s ls = some s' → ls.length ≤ workLeft T s) ∧
      (∃ ls s', runLabels (drainStep T) s ls = some s' ∧ Stuck (drainStep T) s') ∧
      ∀ ls s', runLabels (drainStep T) s ls = some s' → Stuck (drainStep T) s' →
        s'.panicked = false ∧ s'.freeQueue.length = D ∧ s'.freeRequestTokenQueue.length = T ∧
          (0 < D → ∀ t, s'.threads t = .idle) ∧
          (∀ r b, s.readBuffer r = some b → s'.readBuffer r = some b) ∧
          ∀ r b, s'.readBuffer r = some b → s'.runsOf r = 1 := by
  have h := poolInvariant_of_reachable hDT hs
  have hprogress : ∀ (s : PoolState Thread) l s', PoolInvariant D T s →
      drainStep T s l = some s' → PoolInvariant D T s' ∧ workLeft T s' < workLeft T s := by
    intro s l s' h hstep
    obtain ⟨hpool, hless, -⟩ := workLeft_drainStep hDT h hstep
    exact ⟨h.step hDT hpool, hless⟩
  refine ⟨?_, exists_stuck (workLeft T) hprogress h, ?_⟩
  · intro ls s' hr
    have hlength := length_le_measure (workLeft T) hprogress h hr
    omega
  · intro ls s' hr hstuck
    obtain ⟨hend, hset, houtside, hkept⟩ := drained_run hDT h (tokensSet_of_reachable hs) hw hr
    obtain ⟨hnone, hpending⟩ := drained_of_stuck hDT hend hset houtside hstuck
    obtain ⟨hfree, htokens, hwaiting⟩ := hend.drained hnone hpending
    refine ⟨hend.running, hfree, htokens, fun hD => ?_, hkept, fun r b hread => ?_⟩
    · refine idle_of_stuck hend hstuck hnone ?_
      intro hempty
      rw [hempty, List.length_nil] at hfree
      omega
    · have hruns := hend.runs r
      rw [hread, hwaiting r] at hruns
      exact hruns

/-- Three threads, one buffer, two tokens: thread `0` has acquired the buffer, thread `1` spins for
it, and thread `2` calls `execute_pending`. At most fifteen moves are left, theirs and those of the
network card. -/
theorem readPool_empties_two_reads :
    ∃ s, runLabels poolStep (PoolState.init (Fin 3) 1 2)
        [.readDequeueFree 0 0 7 true, .readCall 1 7 true] = some s ∧
      workLeft 2 s = 15 ∧ s.readBuffer 0 = some 0 ∧
      (∀ ls s', runLabels (drainStep 2) s ls = some s' → ls.length ≤ workLeft 2 s) ∧
      (∃ ls s', runLabels (drainStep 2) s ls = some s' ∧ Stuck (drainStep 2) s') ∧
      ∀ ls s', runLabels (drainStep 2) s ls = some s' → Stuck (drainStep 2) s' →
        s'.panicked = false ∧ s'.freeQueue.length = 1 ∧ s'.freeRequestTokenQueue.length = 2 ∧
          (0 < 1 → ∀ t, s'.threads t = .idle) ∧
          (∀ r b, s.readBuffer r = some b → s'.readBuffer r = some b) ∧
          ∀ r b, s'.readBuffer r = some b → s'.runsOf r = 1 :=
  ⟨_, rfl, by decide, rfl, @readPool_empties _ _ _ 1 2 _ (by decide) (reachable_of_runLabels
    [PoolLabel.readDequeueFree (0 : Fin 3) 0 7 true, .readCall 1 7 true] rfl) 2 id⟩

end TwigKV.ReadPool
