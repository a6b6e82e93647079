import TwigKV.Foundations.Simulation
import TwigKV.Process.ServerProcess
import TwigKV.ReadPool.PoolHistory
import Mathlib.Data.Fintype.Sum

/-! # A server process refines its server threads

With its list put back, every thread of a process does steps of the server model: the handler's read
enters the list where the pool accepts it, the callback leaves the list where a worker runs it, and
the queue operations in between are no steps. The pool hands the callbacks to the workers in any
order and each of them once, which is what the server model allows (`process_refines_server`). -/

namespace TwigKV.Process

open TwigKV.Server TwigKV.ReadPool

/-! ## Handlers and lists -/

section Handlers

variable {config : ServerConfig} {st : ServerState} {label : ServerLabel}

/-- A slot read is added to the list; nothing else concerns it. -/
theorem applyEffect_withReads (st : ServerState) (reads : List SlotRead) (effect : ServerEffect) :
    applyEffect (withReads st reads) effect = match slotReadOf effect with
      | some read => withReads st (reads ++ [read])
      | none => withReads (applyEffect st effect) reads := by
  cases effect <;> rfl

/-- The effects of a handler on a thread with a list. -/
theorem applyEffects_withReads (st : ServerState) (reads : List SlotRead)
    (effects : List ServerEffect) :
    applyEffects (withReads st reads) effects
      = withReads (applyEffects st (ownEffects effects)) (reads ++ slotReads effects) := by
  induction effects generalizing st reads with
  | nil => simp [applyEffects, ownEffects, slotReads]
  | cons effect effects ih =>
    rw [applyEffects, List.foldl_cons, applyEffect_withReads, ownEffects, slotReads]
    cases hread : slotReadOf effect with
    | none =>
      rw [List.filter_cons_of_pos (by rw [hread]; rfl), List.filterMap_cons_none hread]
      exact ih _ _
    | some read =>
      rw [List.filter_cons_of_neg (by rw [hread]; exact Bool.false_ne_true),
        List.filterMap_cons_some hread, List.append_cons]
      exact ih _ _

/-- Only a slot callback looks at the list. -/
theorem serverMove_withReads (reads : List SlotRead) (hlabel : isSlotCallback label = false) :
    serverMove config (withReads st reads) label
      = (serverMove config st label).map fun move => (withReads move.1 reads, move.2) := by
  cases label with
  | slotReadCompleted => cases hlabel
  | receiveGet | receivePut | receiveSingletonPut | receiveDelete =>
    simp [serverMove, withReads, Option.map_map, Function.comp_def]
  | sendBlockCacheRequest i =>
    simp only [serverMove, withReads]
    split
    · rfl
    · cases dequeueAt st.blockCacheRequestQueue i <;>
        simp [Option.map_map, Function.comp_def]
  | blockReadCompleted i => cases h : dequeueAt st.pendingOps i <;> simp [serverMove, withReads, h]
  | diskReadCompleted i =>
    cases h : dequeueAt st.pendingDisk i <;>
      simp [serverMove, withReads, h, Option.map_map, Function.comp_def]
  | sendRdmaGetResponse i =>
    cases h : dequeueAt st.rdmaGetResponseQueue i <;>
      simp [serverMove, withReads, h, Option.map_map, Function.comp_def]
  | sendSingletonPutRequest i =>
    cases h : dequeueAt st.singletonPutRequestQueue i with
    | none => simp [serverMove, withReads, h]
    | some move =>
      simp only [serverMove, withReads, h, Option.bind_eq_bind, Option.bind_some]
      split <;> rfl

/-- A step of a thread with a list. -/
theorem serverStep_withReads (reads : List SlotRead) (hlabel : isSlotCallback label = false) :
    serverStep config (withReads st reads) label
      = (serverMove config st label).map fun move =>
          withReads (applyEffects move.1 (ownEffects move.2)) (reads ++ slotReads move.2) := by
  rw [serverStep, serverMove_withReads reads hlabel, Option.map_map]
  exact congrArg (Option.map · _) (funext fun move => applyEffects_withReads _ _ _)

/-- Effects of other kinds post no slot read. -/
theorem slotReads_eq_nil {effects : List ServerEffect}
    (h : ∀ effect ∈ effects, slotReadOf effect = none) : slotReads effects = [] :=
  List.filterMap_eq_nil_iff.mpr h

/-- The slot reads of two lists of effects. -/
theorem slotReads_append (effects effects' : List ServerEffect) :
    slotReads (effects ++ effects') = slotReads effects ++ slotReads effects' :=
  List.filterMap_append

/-- `fetch_from_disk` reads no slot. -/
theorem diskRule_slotReadOf (request : GetRequest) :
    DiskRule config request fun effect => slotReadOf effect = none where
  getAsync := fun _ _ => rfl
  blockCacheGet := fun _ _ => rfl
  getResponse := fun _ _ => rfl

/-- A callback of a slot read posts no further one. -/
theorem slotReads_slotCallback {read : SlotRead} {kv : RDMACacheIndexKeyValue}
    {answers : CallbackAnswers} {effects : List ServerEffect}
    (h : slotCallback config read kv answers = some effects) : slotReads effects = [] :=
  slotReads_eq_nil (forall_mem_slotCallback h (fun _ => ⟨rfl, fun _ _ => rfl, rfl, rfl, rfl⟩)
    (fun _ _ => rfl) rfl (diskRule_slotReadOf _))

/-- Counters read no slot. -/
theorem slotReads_updateSnapshot {counter : SnapshotCounter} {key : UInt64}
    {effects : List ServerEffect} (h : updateSnapshot config counter key = some effects) :
    slotReads effects = [] :=
  slotReads_eq_nil (forall_mem_updateSnapshot h rfl)

/-- The RDMA part of the get handler reads one slot at most. -/
theorem length_slotReads_getFromRdma {request : GetRequest} {keyIndex : UInt64}
    {answers : GetAnswers} {effects : List ServerEffect} {foundInRdma : Bool}
    (h : getFromRdma config request keyIndex answers = some (effects, foundInRdma)) :
    (slotReads effects).length ≤ 1 := by
  unfold getFromRdma at h
  split at h
  · cases h
    exact Nat.zero_le 1
  · split at h
    · cases h
    · rw [Option.map_eq_some_iff] at h
      obtain ⟨⟨reads, found⟩, hreads, heq⟩ := h
      cases heq
      have hbuffer : ∀ value, slotReads (if !config.rdmaAsync then
          [.send (.getResponse request value)] else []) = [] := by
        intro value
        split <;> rfl
      rw [slotReads_append, hbuffer, List.append_nil]
      unfold remoteRead at hreads
      split at hreads
      · rw [Option.some.injEq, readCallback] at hreads
        split at hreads <;> cases hreads
        · exact le_refl 1
        · exact Nat.zero_le 1
      · rw [Option.map_eq_some_iff] at hreads
        obtain ⟨_, hblock, heq⟩ := hreads
        cases heq
        rw [readCorrectNode, Option.bind_eq_some_iff] at hblock
        obtain ⟨_, -, hposted⟩ := hblock
        split at hposted
        · split at hposted <;> cases hposted
          exact Nat.zero_le 1
        · cases hposted
          exact Nat.zero_le 1

/-- The get handler reads one slot at most. -/
theorem length_slotReads_getHandler {request : GetRequest} {answers : GetAnswers}
    {effects : List ServerEffect} (h : getHandler config request answers = some effects) :
    (slotReads effects).length ≤ 1 := by
  simp only [getHandler, Option.bind_eq_bind, Option.bind_eq_some_iff, Option.pure_def,
    Option.some.injEq] at h
  obtain ⟨key, -, outcome, houtcome, total, htotal, rfl⟩ := h
  rw [slotReads_append, slotReads_updateSnapshot htotal, List.append_nil]
  cases hexists : answers.existsInCache with
  | true =>
    rw [hexists, cond_true, getHit, Option.map_eq_some_iff] at houtcome
    obtain ⟨hit, hhit, rfl⟩ := houtcome
    rw [slotReads_append, slotReads_updateSnapshot hhit]
    exact Nat.zero_le 1
  | false =>
    rw [hexists, cond_false] at houtcome
    simp only [getMiss, Option.bind_eq_bind, Option.bind_eq_some_iff, Option.pure_def,
      Option.some.injEq] at houtcome
    obtain ⟨miss, hmiss, ⟨rdma, found⟩, hreads, fetch, hfetch, rfl⟩ := houtcome
    have hnone : slotReads fetch = [] := by
      cases found with
      | true =>
        cases hfetch
        rfl
      | false =>
        simp only [cond_false, getFromLocalDisk, Option.bind_eq_bind, Option.bind_eq_some_iff,
          Option.pure_def, Option.some.injEq] at hfetch
        obtain ⟨localAccess, hlocal, fetch', hfetch', rfl⟩ := hfetch
        rw [slotReads_append, slotReads_updateSnapshot hlocal]
        exact slotReads_eq_nil (forall_mem_fetchFromDisk hfetch' rfl (diskRule_slotReadOf _))
    rw [slotReads_append, slotReads_append, slotReads_updateSnapshot hmiss, hnone, List.append_nil]
    exact length_slotReads_getFromRdma hreads

/-- **A handler reads one slot at most**, and only the get handler reads any. -/
theorem slotReads_serverMove {move : ServerState × List ServerEffect}
    (h : serverMove config st label = some move) (hlabel : isSlotCallback label = false) :
    (slotReads move.2).length ≤ 1 ∧ (readsSlot label = false → slotReads move.2 = []) := by
  have hnil : slotReads move.2 = [] →
      (slotReads move.2).length ≤ 1 ∧ (readsSlot label = false → slotReads move.2 = []) :=
    fun hnil => ⟨by rw [hnil]; exact Nat.zero_le 1, fun _ => hnil⟩
  obtain ⟨st₁, effects⟩ := move
  cases serverMove_cases h with
  | receiveGet hget => exact ⟨length_slotReads_getHandler hget, fun hlabel => by cases hlabel⟩
  | slotReadCompleted => cases hlabel
  | receivePut | receiveSingletonPut | receiveDelete | blockReadCompleted
  | sendSingletonPutRequest => exact hnil rfl
  | diskReadCompleted _ hcallback =>
    exact hnil (slotReads_eq_nil (forall_mem_diskCallback hcallback rfl rfl))
  | sendRdmaGetResponse _ hsend | sendBlockCacheRequest _ hsend =>
    exact hnil (slotReads_eq_nil (forall_mem_sendQueued hsend rfl))

end Handlers

/-! ## What holds in a process -/

section Process

variable {S W : Type}

/-- Where server threads and workers can stand: in `read` and in `execute_pending`. -/
def InRole : S ⊕ W → ThreadState → Prop
  | .inl _, .idle | .inl _, .acquired _ | .inl _, .posted _ => True
  | .inl _, .dequeued _ | .inl _, .calledBack _ | .inl _, .tokenFreed _ => False
  | .inr _, .idle | .inr _, .dequeued _ | .inr _, .calledBack _ | .inr _, .tokenFreed _ => True
  | .inr _, .acquired _ | .inr _, .posted _ => False
  -- a handler that would spin in `read` has not begun yet
  | _, .spinning _ _ => False

/-- The operations of `inPool` keep to the roles and add nothing to the history. -/
theorem inPool_spec {label : PoolLabel (S ⊕ W)} (hlabel : inPool label = true) :
    addsHistory label = false ∧ ∀ t x, Moves label t x → InRole t x := by
  constructor
  · cases label with
    | readDequeueFree | executeCallback => cases hlabel
    | _ => rfl
  · intro t x hmoves
    cases hmoves with
    | call => cases hlabel
    | _ => rcases t with t | w <;> trivial

variable [Fintype S] [Fintype W]

/-- The laws of the pool, and what a process adds: every read passes a callback, and every thread
calls what it is there for. -/
structure ProcessOk (D T : ℕ) (s : ProcessState S W) : Prop where
  /-- The pool. -/
  pool : PoolInvariant D T s.pool
  /-- The callbacks of the reads accepted. -/
  callbacks : ∀ r, r < s.pool.acceptedReads → (s.callbacks r).isSome
  /-- Their buffers. -/
  buffers : ∀ r, r < s.pool.acceptedReads → (s.pool.readBuffer r).isSome
  /-- The threads. -/
  roles : ∀ t, InRole t (s.pool.threads t)
  /-- The tokens of posted reads. -/
  tokens : TokensSet s.pool

/-- A process that has just started. -/
theorem processOk_init (D T : ℕ) : ProcessOk D T (ProcessState.init S W D T) where
  pool := poolInvariant_init D T
  callbacks := fun r hr => absurd hr (Nat.not_lt_zero r)
  buffers := fun r hr => absurd hr (Nat.not_lt_zero r)
  roles := by
    rintro (t | w)
    · trivial
    · trivial
  tokens := tokensSet_init D T

variable [DecidableEq S] [DecidableEq W] {config : S → ServerConfig} {D T : ℕ}
  {s s' : ProcessState S W}

/-- A step of the pool that keeps to the roles leads to where a thread can stand. -/
theorem ProcessOk.roles_poolStep (h : ProcessOk D T s) {pool : PoolState (S ⊕ W)}
    {label : PoolLabel (S ⊕ W)} (hlabel : ∀ t x, Moves label t x → InRole t x)
    (hs : poolStep s.pool label = some pool) : ∀ t, InRole t (pool.threads t) := by
  intro t
  rcases threads_poolStep hs with hsame | ⟨t', x, hmoves, hupdate⟩
  · rw [hsame]
    exact h.roles t
  · rw [hupdate, Function.update_apply]
    split
    · next heq =>
      subst heq
      exact hlabel t x hmoves
    · exact h.roles t

/-- A step of the pool that accepts nothing. -/
theorem ProcessOk.poolStep (hDT : D ≤ T) (h : ProcessOk D T s) {pool : PoolState (S ⊕ W)}
    {label : PoolLabel (S ⊕ W)} (hlabel : ∀ t x, Moves label t x → InRole t x)
    (haccepted : pool.acceptedReads = s.pool.acceptedReads)
    (hbuffer : pool.readBuffer = s.pool.readBuffer)
    (hs : ReadPool.poolStep s.pool label = some pool) : ProcessOk D T { s with pool := pool } where
  pool := h.pool.step hDT hs
  callbacks := fun r hr => h.callbacks r (haccepted ▸ hr)
  buffers := fun r hr => by
    show (pool.readBuffer r).isSome
    rw [hbuffer]
    exact h.buffers r (haccepted ▸ hr)
  roles := h.roles_poolStep hlabel hs
  tokens := h.tokens.step (poolMove_of_poolStep hs).2

/-! ## Reads that are accepted -/

/-- A read that is accepted is the last one of its thread. -/
theorem acceptRead_spec (hDT : D ≤ T) (h : ProcessOk D T s) {t : S} {i : ℕ} {read : SlotRead}
    (hs : acceptRead s t i read = some s') :
    ProcessOk D T s' ∧ s'.servers = s.servers ∧
      ∀ t', outstanding s' t' = outstanding s t' ++ if t' = t then [read] else [] := by
  rw [acceptRead, Option.map_eq_some_iff] at hs
  obtain ⟨pool, hpool, rfl⟩ := hs
  obtain ⟨haccepted, hruns, b, hbuffer⟩ := accepted_poolStep hpool
  have hrunsOf : ∀ r, pool.runsOf r = s.pool.runsOf r := fun r => by
    rw [PoolState.runsOf, PoolState.runsOf, hruns]
  refine ⟨⟨h.pool.step hDT hpool, ?_, ?_, ?_, h.tokens.step (poolMove_of_poolStep hpool).2⟩, rfl,
    fun t' => ?_⟩
  · intro r hr
    show (Function.update s.callbacks s.pool.acceptedReads (some (t, read)) r).isSome
    rw [Function.update_apply]
    split
    · rfl
    · next hne =>
      refine h.callbacks r ?_
      have hlt : r < s.pool.acceptedReads + 1 := haccepted ▸ hr
      omega
  · intro r hr
    show (pool.readBuffer r).isSome
    rw [hbuffer, Function.update_apply]
    split
    · rfl
    · next hne =>
      refine h.buffers r ?_
      have hlt : r < s.pool.acceptedReads + 1 := haccepted ▸ hr
      omega
  · refine h.roles_poolStep ?_ hpool
    intro t' x hmoves
    cases hmoves
    trivial
  · show (List.range pool.acceptedReads).filterMap _ = _
    rw [haccepted, List.range_succ, List.filterMap_append]
    refine congrArg₂ (· ++ ·) (List.filterMap_congr fun r hr => ?_) ?_
    · -- the reads before
      have hne : r ≠ s.pool.acceptedReads := Nat.ne_of_lt (List.mem_range.mp hr)
      show (if pool.runsOf r = 0 then (Function.update s.callbacks s.pool.acceptedReads
        (some (t, read)) r).bind _ else none) = _
      rw [hrunsOf, Function.update_of_ne hne]
    · -- the read itself
      have hfresh : pool.runsOf s.pool.acceptedReads = 0 := by
        rw [hrunsOf]
        exact h.pool.runsOf_fresh (le_refl _)
      rw [List.filterMap_cons]
      simp only [hfresh, if_true, Function.update_self, Option.bind_some, List.filterMap_nil]
      by_cases hsame : t' = t
      · rw [if_pos hsame, if_pos hsame.symm]
      · rw [if_neg hsame, if_neg (Ne.symm hsame)]

/-- So are the reads of a handler, in order. -/
theorem acceptReads_spec (hDT : D ≤ T) (h : ProcessOk D T s) {t : S} {i : ℕ}
    {reads : List SlotRead} (hs : acceptReads s t i reads = some s') :
    ProcessOk D T s' ∧ s'.servers = s.servers ∧
      ∀ t', outstanding s' t' = outstanding s t' ++ if t' = t then reads else [] := by
  induction reads generalizing s with
  | nil =>
    cases hs
    refine ⟨h, rfl, fun t' => ?_⟩
    rw [ite_self, List.append_nil]
  | cons read reads ih =>
    rw [acceptReads, Option.bind_eq_some_iff] at hs
    obtain ⟨s₁, hfirst, hs⟩ := hs
    obtain ⟨h₁, hservers₁, hout₁⟩ := acceptRead_spec hDT h hfirst
    obtain ⟨h', hservers, hout⟩ := ih h₁ hs
    refine ⟨h', hservers.trans hservers₁, fun t' => ?_⟩
    rw [hout, hout₁]
    by_cases hsame : t' = t
    · simp [hsame]
    · simp [hsame]

/-! ## Callbacks that run -/

/-- The callback a worker runs leaves the list of the thread it was captured on. -/
theorem outstanding_callback (h : ProcessOk D T s) {pool : PoolState (S ⊕ W)} {w : W} {r : ℕ}
    {t : S} {read : SlotRead}
    (hs : ReadPool.poolStep s.pool (.executeCallback (.inr w)) = some pool)
    (hr : (s.pool.threads (.inr w)).waitingRead = some r)
    (howner : s.callbacks r = some (t, read)) :
    (∃ i, dequeueAt (outstanding s t) i = some (read, outstanding { s with pool := pool } t)) ∧
      ∀ t', t' ≠ t → outstanding { s with pool := pool } t' = outstanding s t' := by
  obtain ⟨haccepted, -, hruns⟩ := ran_poolStep hs
  obtain ⟨hnotRun, hlt⟩ := h.pool.waitingRead hr
  have hran : pool.runsOf r = 1 := by
    rw [hruns, hnotRun, if_pos hr]
  have hothers : ∀ r', r' ≠ r → pool.runsOf r' = s.pool.runsOf r' := by
    intro r' hne
    rw [hruns, if_neg, Nat.add_zero]
    rw [hr]
    exact fun heq => hne (Option.some.inj heq).symm
  constructor
  · show ∃ i, dequeueAt ((List.range s.pool.acceptedReads).filterMap _) i
      = some (read, (List.range pool.acceptedReads).filterMap _)
    rw [haccepted]
    refine dequeueAt_filterMap List.nodup_range (List.mem_range.mpr hlt) ?_ ?_ ?_
    · rw [if_pos hnotRun, howner]
      exact if_pos rfl
    · show (if pool.runsOf r = 0 then _ else none) = none
      rw [hran, if_neg Nat.one_ne_zero]
    · intro r' hne
      show (if pool.runsOf r' = 0 then _ else none) = _
      rw [hothers r' hne]
  · intro t' ht'
    show (List.range pool.acceptedReads).filterMap _ = _
    rw [haccepted]
    refine List.filterMap_congr fun r' _ => ?_
    show (if pool.runsOf r' = 0 then _ else none) = _
    by_cases hsame : r' = r
    · -- the callback that runs is not on the list of another thread
      subst hsame
      rw [hran, if_neg Nat.one_ne_zero, if_pos hnotRun, howner]
      exact (if_neg (Ne.symm ht')).symm
    · rw [hothers r' hsame]

omit [Fintype S] [Fintype W] [DecidableEq W] in
/-- Queue operations change no list. -/
theorem outstanding_sameHistory {pool : PoolState (S ⊕ W)} (h : SameHistory s.pool pool) (t : S) :
    outstanding { s with pool := pool } t = outstanding s t := by
  show (List.range pool.acceptedReads).filterMap _ = _
  rw [h.acceptedReads]
  refine List.filterMap_congr fun r _ => ?_
  show (if pool.runsOf r = 0 then _ else none) = _
  rw [PoolState.runsOf, h.callbackRuns]
  rfl

/-! ## Steps -/

/-- What a step of a process is for its server threads: nothing, or a step of one of them with a
label that meets `P`. -/
inductive ThreadsMove (config : S → ServerConfig) (P : ServerLabel → Prop)
    (s s' : ProcessState S W) : Prop
  /-- No thread moves. -/
  | stutter (h : ∀ t, serverOf s' t = serverOf s t)
  /-- One does. -/
  | move (t : S) (label : ServerLabel) (hlabel : P label)
      (hstep : serverStep (config t) (serverOf s t) label = some (serverOf s' t))
      (hothers : ∀ t', t' ≠ t → serverOf s' t' = serverOf s t')

/-- The labels that a step of a process can be for its threads. -/
def ProcessLabel.Concerns : ProcessLabel S W → ServerLabel → Prop
  | .serverMoves _ label _, l => l = label ∧ isSlotCallback label = false
  | .poolMoves _, _ => False
  | .executeCallback _ kv answers, l => ∃ i, l = .slotReadCompleted i kv answers

omit [Fintype S] [Fintype W] [DecidableEq W] in
/-- A thread with its list after another one was changed. -/
theorem serverOf_setServer_of_ne (s : ProcessState S W) {t t' : S} (st : ServerState)
    (hne : t' ≠ t) : serverOf (s.setServer t st) t' = serverOf s t' := by
  show withReads (Function.update s.servers t st t') (outstanding s t') = _
  rw [Function.update_of_ne hne]
  rfl

omit [Fintype S] [Fintype W] [DecidableEq W] in
/-- The thread that was changed. -/
theorem serverOf_setServer_self (s : ProcessState S W) (t : S) (st : ServerState) :
    serverOf (s.setServer t st) t = withReads st (outstanding s t) := by
  show withReads (Function.update s.servers t st t) (outstanding s t) = _
  rw [Function.update_self]

/-- A handler's step is a step of its thread. -/
theorem serverMoves_spec (hDT : D ≤ T) (h : ProcessOk D T s) {t : S} {label : ServerLabel} {i : ℕ}
    (hs : processStep config s (.serverMoves t label i) = some s') :
    ProcessOk D T s' ∧ isSlotCallback label = false ∧
      serverStep (config t) (serverOf s t) label = some (serverOf s' t) ∧
      (∀ t', t' ≠ t → serverOf s' t' = serverOf s t') ∧
      (readsSlot label = false → s'.pool = s.pool) := by
  rw [processStep] at hs
  split at hs
  · cases hs
  · next hcan =>
    rw [Bool.not_eq_true, Bool.or_eq_false_iff] at hcan
    rw [Option.bind_eq_some_iff] at hs
    obtain ⟨move, hmove, hs⟩ := hs
    rw [Option.map_eq_some_iff] at hs
    obtain ⟨s₁, haccept, rfl⟩ := hs
    obtain ⟨h₁, hservers, hout⟩ := acceptReads_spec hDT h haccept
    refine ⟨⟨h₁.pool, h₁.callbacks, h₁.buffers, h₁.roles, h₁.tokens⟩, hcan.1, ?_,
      fun t' hne => ?_, fun hget => ?_⟩
    · have hself := hout t
      rw [if_pos rfl] at hself
      rw [serverOf, serverStep_withReads _ hcan.1, hmove, Option.map_some, serverOf_setServer_self,
        hself]
    · have hother := hout t'
      rw [if_neg hne, List.append_nil] at hother
      rw [serverOf_setServer_of_ne _ _ hne, serverOf, serverOf, hservers, hother]
    · rw [(slotReads_serverMove hmove hcan.1).2 hget, acceptReads, Option.some.injEq] at haccept
      rw [haccept]
      rfl

/-- A callback's step is a step of the thread it was captured on. -/
theorem executeCallback_spec (hDT : D ≤ T) (h : ProcessOk D T s) {w : W}
    {kv : RDMACacheIndexKeyValue} {answers : CallbackAnswers}
    (hs : processStep config s (.executeCallback w kv answers) = some s') :
    ProcessOk D T s' ∧
      ReadPool.poolStep s.pool (.executeCallback (.inr w)) = some s'.pool ∧
      ThreadsMove config (fun l => ∃ i, l = .slotReadCompleted i kv answers) s s' := by
  rw [processStep, Option.bind_eq_some_iff] at hs
  obtain ⟨pool, hpool, hs⟩ := hs
  obtain ⟨haccepted, hbuffer, hruns⟩ := ran_poolStep hpool
  have hok : ProcessOk D T { s with pool := pool } := by
    refine h.poolStep hDT ?_ haccepted hbuffer hpool
    intro t x hmoves
    cases hmoves
    trivial
  unfold runCallback at hs
  split at hs
  · next hnone =>
    cases hs
    refine ⟨hok, hpool, .stutter fun t => ?_⟩
    -- an accepted read has passed a callback, so this entry carries none
    have hwaiting : (s.pool.threads (.inr w)).waitingRead = none := by
      cases hr : (s.pool.threads (.inr w)).waitingRead with
      | none => rfl
      | some r =>
        have hsome := h.callbacks r (h.pool.waitingRead hr).2
        rw [hr] at hnone
        rw [show s.callbacks r = none from hnone] at hsome
        cases hsome
    have hsame : outstanding { s with pool := pool } t = outstanding s t := by
      show (List.range pool.acceptedReads).filterMap _ = _
      rw [haccepted]
      refine List.filterMap_congr fun r _ => ?_
      show (if pool.runsOf r = 0 then _ else none) = _
      rw [hruns, hwaiting, if_neg (Option.some_ne_none r).symm, Nat.add_zero]
    rw [serverOf, hsame]
    rfl
  · next t read howner =>
    obtain ⟨r, hr, hread⟩ := Option.bind_eq_some_iff.mp howner
    rw [Option.map_eq_some_iff] at hs
    obtain ⟨effects, hcallback, rfl⟩ := hs
    obtain ⟨⟨i, hi⟩, hothers⟩ := outstanding_callback h hpool hr hread
    refine ⟨⟨hok.pool, hok.callbacks, hok.buffers, hok.roles, hok.tokens⟩, hpool,
      .move t (.slotReadCompleted i kv answers) ⟨i, rfl⟩ ?_ fun t' hne => ?_⟩
    · have hmove : serverMove (config t) (serverOf s t) (.slotReadCompleted i kv answers)
          = some (withReads (s.servers t) (outstanding { s with pool := pool } t), effects) := by
        show (dequeueAt (outstanding s t) i).bind _ = _
        rw [hi, Option.bind_some]
        dsimp only
        rw [hcallback]
        rfl
      rw [serverStep, hmove, Option.map_some]
      dsimp only
      rw [applyEffects_withReads, slotReads_slotCallback hcallback, List.append_nil,
        serverOf_setServer_self]
    · rw [serverOf_setServer_of_ne _ _ hne, serverOf, hothers t' hne]
      rfl

/-- An operation of the pool is no step of a thread. -/
theorem poolMoves_spec (hDT : D ≤ T) (h : ProcessOk D T s) {label : PoolLabel (S ⊕ W)}
    (hs : processStep config s (.poolMoves label) = some s') :
    ProcessOk D T s' ∧ inPool label = true ∧ ReadPool.poolStep s.pool label = some s'.pool ∧
      ∀ t, serverOf s' t = serverOf s t := by
  rw [processStep] at hs
  split at hs
  · next hlabel =>
    rw [Option.map_eq_some_iff] at hs
    obtain ⟨pool, hpool, rfl⟩ := hs
    obtain ⟨hquiet, hroles⟩ := inPool_spec hlabel
    have hsame := sameHistory_poolStep hquiet hpool
    refine ⟨h.poolStep hDT hroles hsame.acceptedReads hsame.readBuffer hpool, hlabel, hpool, ?_⟩
    intro t
    rw [serverOf, outstanding_sameHistory hsame]
    rfl
  · cases hs

/-- **Every step of a process** keeps its laws and is a step of one server thread at most. -/
theorem ProcessOk.step (hDT : D ≤ T) (h : ProcessOk D T s) {l : ProcessLabel S W}
    (hs : processStep config s l = some s') :
    ProcessOk D T s' ∧ ThreadsMove config l.Concerns s s' := by
  cases l with
  | serverMoves t label i =>
    obtain ⟨h', hlabel, hstep, hothers, -⟩ := serverMoves_spec hDT h hs
    exact ⟨h', .move t label ⟨rfl, hlabel⟩ hstep hothers⟩
  | poolMoves label =>
    obtain ⟨h', -, -, hsame⟩ := poolMoves_spec hDT h hs
    exact ⟨h', .stutter hsame⟩
  | executeCallback w kv answers =>
    obtain ⟨h', -, hmove⟩ := executeCallback_spec hDT h hs
    exact ⟨h', hmove⟩

/-- The converse: what a thread can do the process can, where the thread is not inside `read` and a
get finds a free buffer. -/
theorem exists_serverMoves (hDT : D ≤ T) (h : ProcessOk D T s) {t : S} {label : ServerLabel}
    {st' : ServerState} (hlabel : isSlotCallback label = false)
    (hidle : inLoop label = true → s.pool.threads (.inl t) = .idle)
    (hfree : readsSlot label = true → s.pool.freeQueue ≠ [])
    (hs : serverStep (config t) (serverOf s t) label = some st') :
    ∃ s', processStep config s (.serverMoves t label 0) = some s' ∧ serverOf s' t = st' := by
  obtain ⟨move, hmove⟩ : ∃ move, serverMove (config t) (s.servers t) label = some move := by
    rw [serverOf, serverStep_withReads _ hlabel, Option.map_eq_some_iff] at hs
    obtain ⟨move, hmove, -⟩ := hs
    exact ⟨move, hmove⟩
  have hstep : ∃ s', processStep config s (.serverMoves t label 0) = some s' := by
    obtain ⟨hone, hnone⟩ := slotReads_serverMove hmove hlabel
    obtain ⟨s₁, haccept⟩ : ∃ s₁, acceptReads s t 0 (slotReads move.2) = some s₁ := by
      cases hget : readsSlot label with
      | false => exact ⟨s, by rw [hnone hget]; rfl⟩
      | true =>
        have hloop : inLoop label = true := by
          cases label with
          | receiveGet => rfl
          | _ => cases hget
        obtain ⟨d, rest, hd⟩ := dequeueAt_head (hfree hget)
        match hreads : slotReads move.2, hone with
        | [], _ => exact ⟨s, rfl⟩
        | [read], _ =>
          simp [acceptReads, acceptRead, ReadPool.poolStep, h.pool.running, readDequeueFree,
            hidle hloop, hd]
    have hguard : (isSlotCallback label || (inLoop label &&
        decide (s.pool.threads (.inl t) ≠ .idle))) = false := by
      rw [hlabel, Bool.false_or, Bool.and_eq_false_iff]
      cases hloop : inLoop label with
      | false => exact Or.inl rfl
      | true => exact Or.inr (decide_eq_false (not_not.mpr (hidle hloop)))
    refine ⟨s₁.setServer t (applyEffects move.1 (ownEffects move.2)), ?_⟩
    rw [processStep, hguard, if_neg Bool.false_ne_true, hmove, Option.bind_some, haccept,
      Option.map_some]
  obtain ⟨s', hs'⟩ := hstep
  obtain ⟨-, -, hserver, -, -⟩ := serverMoves_spec hDT h hs'
  exact ⟨s', hs', Option.some.inj (hserver.symm.trans hs)⟩

/-! ## Runs -/

/-- A process keeps its laws. -/
theorem processOk_of_reachable (hDT : D ≤ T)
    (hs : Reachable (processStep config) (ProcessState.init S W D T) s) : ProcessOk D T s :=
  hs.invariant (processOk_init D T) fun _ _ _ _ h _ hstep => (h.step hDT hstep).1

/-- A thread with its list put back is where the server model gets. -/
theorem reachable_serverOf (hDT : D ≤ T)
    (hs : Reachable (processStep config) (ProcessState.init S W D T) s) (t : S) :
    Reachable (serverStep (config t)) .initial (serverOf s t) := by
  refine (hs.simulate (fun s => serverOf s t) (processOk_init D T) ?_).2
  intro s l s' h _ hstep
  obtain ⟨h', hmove⟩ := h.step hDT hstep
  refine ⟨h', ?_⟩
  cases hmove with
  | stutter hsame =>
    rw [hsame t]
    exact .refl _
  | move t' label _ hstep hothers =>
    by_cases ht : t = t'
    · subst ht
      exact .single trivial hstep
    · rw [hothers t ht]
      exact .refl _

omit [DecidableEq W] in
/-- A read on a list has its callback in one place of the pool. -/
theorem waitingFor_of_outstanding (h : ProcessOk D T s) {t : S} {read : SlotRead}
    (hread : read ∈ outstanding s t) :
    ∃ r, s.callbacks r = some (t, read) ∧ s.pool.runsOf r = 0 ∧ s.pool.waitingFor r = 1 := by
  rw [outstanding, List.mem_filterMap] at hread
  obtain ⟨r, hr, howner⟩ := hread
  split at howner
  · next hnotRun =>
    obtain ⟨⟨t', read'⟩, hcallback, hsame⟩ := Option.bind_eq_some_iff.mp howner
    obtain ⟨b, hbuffer⟩ := Option.isSome_iff_exists.mp (h.buffers r (List.mem_range.mp hr))
    have hruns := h.pool.runs r
    rw [hbuffer, hnotRun, Nat.zero_add] at hruns
    dsimp only at hsame
    split at hsame
    · next heq =>
      cases hsame
      subst heq
      exact ⟨r, hcallback, hnotRun, hruns⟩
    · cases hsame
  · cases howner

/-- **A server process refines its server threads.** With `D` data buffers, `T ≥ D` request tokens
and any number of server threads and completion workers, in every interleaving of handlers, queue
operations, completions and callbacks: the pool never panics; every thread, with the reads whose
callbacks have not run put back in its list, is in a state that the server model reaches; and each
of these callbacks waits in exactly one place of the pool. Conversely whatever the server model lets
a thread do next but run a callback, the process can do, if the thread is not inside `read` and a
get finds a free buffer. -/
theorem process_refines_server (hDT : D ≤ T) (config : S → ServerConfig)
    (hs : Reachable (processStep config) (ProcessState.init S W D T) s) :
    s.pool.panicked = false ∧
      (∀ t, Reachable (serverStep (config t)) .initial (serverOf s t)) ∧
      (∀ t, ∀ read ∈ outstanding s t, ∃ r, s.callbacks r = some (t, read) ∧
        s.pool.runsOf r = 0 ∧ s.pool.waitingFor r = 1) ∧
      ∀ t label st', isSlotCallback label = false →
        (inLoop label = true → s.pool.threads (.inl t) = .idle) →
        (readsSlot label = true → s.pool.freeQueue ≠ []) →
        serverStep (config t) (serverOf s t) label = some st' →
        ∃ s', processStep config s (.serverMoves t label 0) = some s' ∧ serverOf s' t = st' := by
  have h := processOk_of_reachable hDT hs
  refine ⟨h.pool.running, fun t => reachable_serverOf hDT hs t,
    fun t read hread => waitingFor_of_outstanding h hread, ?_⟩
  intro t label st' hlabel hidle hfree hstep
  exact exists_serverMoves hDT h hlabel hidle hfree hstep

end Process

/-- A get that the cache does not hold, up to where its read is posted. -/
def pooledGet : List (ProcessLabel (Fin 1) (Fin 1)) :=
  [.serverMoves 0 (.receiveGet 1 9000 "1" ⟨false, "", fun _ => 0, true, "B", ⟨"", none⟩⟩) 0,
    .poolMoves (.readPost (.inl 0) 0), .poolMoves (.readEnqueuePending (.inl 0))]

/-- One server thread, one worker, one buffer and one token: the read posted is on the thread's
list. -/
theorem process_refines_server_pooled_get :
    ∃ s, runLabels (processStep fun _ => indexingConfig true) (.init (Fin 1) (Fin 1) 1 1) pooledGet
      = some s ∧ (outstanding s 0).length = 1 ∧ s.pool.panicked = false ∧
      (∀ t, Reachable (serverStep (indexingConfig true)) .initial (serverOf s t)) ∧
      (∀ t, ∀ read ∈ outstanding s t, ∃ r, s.callbacks r = some (t, read) ∧
        s.pool.runsOf r = 0 ∧ s.pool.waitingFor r = 1) ∧
      ∀ t label st', isSlotCallback label = false →
        (inLoop label = true → s.pool.threads (.inl t) = .idle) →
        (readsSlot label = true → s.pool.freeQueue ≠ []) →
        serverStep (indexingConfig true) (serverOf s t) label = some st' →
        ∃ s', processStep (fun _ => indexingConfig true) s (.serverMoves t label 0) = some s' ∧
          serverOf s' t = st' :=
  ⟨_, rfl, rfl, process_refines_server (le_refl 1) _ (reachable_of_runLabels pooledGet rfl)⟩

end TwigKV.Process
