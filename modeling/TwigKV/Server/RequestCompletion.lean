import TwigKV.Server.DiskModes
import TwigKV.Server.EndpointSafety
import TwigKV.Server.ResponseCount

/-! # Every get is answered

Once no more messages arrive, the workers, the poller, the database and the loop of a server thread
have a bounded number of steps left, in any order. Where they end nothing is under way any more and
every get has been answered once, unless the program has stopped with a panic, which it does in one
place only: the callback of a slot read that finds another key in the slot reads the database, and
without `DISK_ASYNC` it panics where the database has no value (`gets_are_answered`). The one
exception are responses of database reads without `block_db.async`, which the loop never takes from
their queue. -/

namespace TwigKV.Server

section Completion

variable {config : ServerConfig} {st st' st₁ : ServerState} {label : ServerLabel}
  {effects : List ServerEffect}

/-! ## The work left -/

/-- The step completes something that is under way; the others receive a message. -/
def completes : ServerLabel → Bool
  | .receiveGet _ _ _ _ | .receivePut _ _ _ | .receiveSingletonPut _ _ _ _ | .receiveDelete _ =>
    false
  | .slotReadCompleted _ _ _ | .blockReadCompleted _ _ | .diskReadCompleted _ _
  | .sendRdmaGetResponse _ | .sendBlockCacheRequest _ | .sendSingletonPutRequest _ => true

/-- What the step completes is under way. The responses of database reads are looked for only with
`block_db.async`. -/
def isUnderWay (config : ServerConfig) (st : ServerState) : ServerLabel → Bool
  | .receiveGet _ _ _ _ | .receivePut _ _ _ | .receiveSingletonPut _ _ _ _ | .receiveDelete _ =>
    false
  | .slotReadCompleted i _ _ => (dequeueAt st.pendingReads i).isSome
  | .blockReadCompleted i _ => (dequeueAt st.pendingOps i).isSome
  | .diskReadCompleted i _ => (dequeueAt st.pendingDisk i).isSome
  | .sendRdmaGetResponse i => (dequeueAt st.rdmaGetResponseQueue i).isSome
  | .sendBlockCacheRequest i =>
      config.blockDbAsync && (dequeueAt st.blockCacheRequestQueue i).isSome
  | .sendSingletonPutRequest i => (dequeueAt st.singletonPutRequestQueue i).isSome

/-- What is under way is completed. -/
theorem completes_of_isUnderWay (h : isUnderWay config st label = true) :
    completes label = true := by
  cases label with
  | receiveGet | receivePut | receiveSingletonPut | receiveDelete => cases h
  | _ => rfl

/-- The steps that an effect leaves to be done: a slot read may lead to a read in the database, and
every read leads to a response. -/
def effectWork : ServerEffect → ℕ
  | .readSlot _ => 3
  | .readBlock _ | .getAsync _ => 2
  | .appendRdmaGetResponse _ | .appendBlockCacheRequest _ | .appendSingletonPutRequest _ => 1
  | .send _ | .snapshot _ _ | .blockCachePut _ _ | .blockCacheGet _ _ | .cachePut _ _
  | .putNchance _ _ | .putAccessRateMatch _ _ | .putSingleton _ _ _ _ | .deleteKey _
  | .updateLocalKey _ _ _ => 0

/-- The steps left. -/
def workLeft (st : ServerState) : ℕ :=
  3 * st.pendingReads.length + 2 * st.pendingOps.length + 2 * st.pendingDisk.length
    + st.rdmaGetResponseQueue.length + st.blockCacheRequestQueue.length
    + st.singletonPutRequestQueue.length

/-- Effects add their work. -/
theorem workLeft_applyEffects (st : ServerState) (effects : List ServerEffect) :
    workLeft (applyEffects st effects) = workLeft st + weight effectWork effects := by
  induction effects generalizing st with
  | nil => rfl
  | cons effect effects ih =>
    show workLeft (applyEffects (applyEffect st effect) effects) = _
    rw [ih, weight_cons]
    cases effect <;> simp [applyEffect, workLeft, effectWork] <;> omega

/-- Counting leaves no work. -/
theorem work_updateSnapshot {counter : SnapshotCounter} {key : UInt64}
    (h : updateSnapshot config counter key = some effects) : weight effectWork effects = 0 :=
  weight_eq_zero (forall_mem_updateSnapshot (Q := fun effect => effectWork effect = 0) h rfl)

/-- `fetch_from_disk` leaves at most a read in the database. -/
theorem work_fetchFromDisk {request : GetRequest} {key : UInt64} {addToCache : Bool}
    {disk : DiskAnswers} (h : fetchFromDisk config request key addToCache disk = some effects) :
    weight effectWork effects ≤ 2 := by
  simp only [fetchFromDisk, Option.bind_eq_bind, Option.bind_eq_some_iff, Option.pure_def,
    Option.some.injEq] at h
  obtain ⟨access, haccess, ⟨reads, value⟩, hreads, rfl⟩ := h
  have hreads' : weight effectWork reads ≤ 2 := by
    unfold readFromDisk at hreads
    split at hreads
    · split at hreads <;> cases hreads <;> simp [effectWork]
    · split at hreads
      · cases hreads
        simp [effectWork]
      · rw [Option.map_eq_some_iff] at hreads
        obtain ⟨_, -, heq⟩ := hreads
        cases heq
        exact Nat.zero_le _
  rw [weight_append, weight_append, work_updateSnapshot haccess]
  cases config.diskAsync with
  | true => simpa using hreads'
  | false => simpa [effectWork] using hreads'

/-- The callback of an indexed read leaves at most two steps: a response and a forward, or a read in
the database. -/
theorem work_slotCallback {read : SlotRead} {kv : RDMACacheIndexKeyValue}
    {answers : CallbackAnswers}
    (h : slotCallback config read kv answers = some effects) : weight effectWork effects ≤ 2 := by
  unfold slotCallback at h
  split at h
  · rw [slotMatch, Option.map_eq_some_iff] at h
    obtain ⟨accessRate, haccessRate, rfl⟩ := h
    have hnone : weight effectWork accessRate = 0 := by
      unfold accessRateEffects at haccessRate
      split at haccessRate
      · rw [Option.map_eq_some_iff] at haccessRate
        obtain ⟨count, hcount, rfl⟩ := haccessRate
        rw [weight_cons]
        split at hcount
        · rw [work_updateSnapshot hcount]
          rfl
        · cases hcount
          rfl
      · cases haccessRate
        rfl
    have hforward : weight effectWork (nchanceEffects config (toString kv.keyIndex.toNat)
        (valueView config kv.data) answers.evicted) ≤ 1 := by
      unfold nchanceEffects
      split
      · cases answers.evicted <;> simp [effectWork]
      · exact Nat.zero_le _
    rw [weight_append, weight_append, hnone, weight_cons, weight_nil, effectWork]
    omega
  · simp only [slotMismatch, Option.bind_eq_bind, Option.bind_eq_some_iff, Option.pure_def,
      Option.some.injEq] at h
    obtain ⟨remoteAccess, hremote, fetch, hfetch, rfl⟩ := h
    have hwork := work_fetchFromDisk hfetch
    rw [weight_append, work_updateSnapshot hremote, weight_cons, effectWork]
    omega

/-- **Every completion is progress.** -/
theorem workLeft_serverStep (hcompletes : completes label = true)
    (h : serverStep config st label = some st') : workLeft st' < workLeft st := by
  rw [serverStep, Option.map_eq_some_iff] at h
  obtain ⟨⟨st₁, effects⟩, hmove, rfl⟩ := h
  rw [workLeft_applyEffects]
  cases serverMove_cases hmove with
  | receiveGet | receivePut | receiveSingletonPut | receiveDelete => cases hcompletes
  | slotReadCompleted hqueue hcallback =>
    have hlength := (dequeueAt_perm hqueue).length_eq
    have hwork := work_slotCallback hcallback
    simp only [workLeft, List.length_cons] at hlength ⊢
    omega
  | blockReadCompleted hqueue =>
    have hlength := (dequeueAt_perm hqueue).length_eq
    simp only [workLeft, List.length_cons, weight_cons, weight_nil, effectWork] at hlength ⊢
    omega
  | diskReadCompleted hqueue hcallback =>
    have hlength := (dequeueAt_perm hqueue).length_eq
    have hwork : weight effectWork effects = 1 := by
      rw [diskCallback, Option.map_eq_some_iff] at hcallback
      obtain ⟨puts, hputs, rfl⟩ := hcallback
      have hnone : weight effectWork puts = 0 := by
        unfold diskCachePut at hputs
        split at hputs
        · cases hputs
          rfl
        · cases hputs
          rfl
        · rw [Option.map_eq_some_iff] at hputs
          obtain ⟨k, -, rfl⟩ := hputs
          split <;> rfl
      rw [weight_append, hnone]
      rfl
    simp only [workLeft, List.length_cons] at hlength ⊢
    omega
  | sendRdmaGetResponse hqueue hsend =>
    have hlength := (dequeueAt_perm hqueue).length_eq
    have hwork := weight_eq_zero
      (forall_mem_sendQueued (Q := fun effect => effectWork effect = 0) hsend rfl)
    simp only [workLeft, List.length_cons] at hlength ⊢
    omega
  | sendBlockCacheRequest hqueue hsend =>
    have hlength := (dequeueAt_perm hqueue).length_eq
    have hwork := weight_eq_zero
      (forall_mem_sendQueued (Q := fun effect => effectWork effect = 0) hsend rfl)
    simp only [workLeft, List.length_cons] at hlength ⊢
    omega
  | sendSingletonPutRequest hqueue =>
    have hlength := (dequeueAt_perm hqueue).length_eq
    simp only [workLeft, List.length_cons, weight_cons, weight_nil, effectWork] at hlength ⊢
    omega

/-! ## What can be completed -/

/-- The snapshot counts the key: it is within bounds, or there is no snapshot. -/
def CountsKey (config : ServerConfig) (key : UInt64) : Prop :=
  config.snapshotEnabled = true → key.toNat ≤ config.opsConfig.numKeyValuePairs

/-- What is queued is queued with `OK`, and slots are read for keys that the snapshot counts. -/
def AppendsOk (config : ServerConfig) : ServerEffect → Prop
  | .appendRdmaGetResponse response | .appendBlockCacheRequest response =>
      response.responseType = .ok
  | .appendSingletonPutRequest put => put.responseType = .ok
  | .readSlot read => CountsKey config read.expectedKey
  | .send _ | .snapshot _ _ | .blockCachePut _ _ | .blockCacheGet _ _ | .cachePut _ _
  | .putNchance _ _ | .putAccessRateMatch _ _ | .putSingleton _ _ _ _ | .deleteKey _
  | .updateLocalKey _ _ _ | .readBlock _ | .getAsync _ => True

/-- What is under way can be completed: its keys are numbers that the snapshot counts, and nothing
is queued as failed. -/
structure Completable (config : ServerConfig) (st : ServerState) : Prop where
  /-- The keys asked for are numbers. -/
  keys : RequestsUnderWay config (fun request => ∃ key, stoi request.key = some key) st
  /-- The keys of slot reads are counted. -/
  counted : ∀ read ∈ st.pendingReads, CountsKey config read.expectedKey
  /-- Responses of RDMA reads. -/
  rdmaGetResponseQueue : ∀ response ∈ st.rdmaGetResponseQueue, response.responseType = .ok
  /-- Responses of database reads. -/
  blockCacheRequestQueue : ∀ response ∈ st.blockCacheRequestQueue, response.responseType = .ok
  /-- Singleton put requests. -/
  singletonPutRequestQueue : ∀ put ∈ st.singletonPutRequestQueue, put.responseType = .ok

/-- What the snapshot counts, it counts. -/
theorem countsKey_of_updateSnapshot {counter : SnapshotCounter} {key : UInt64}
    (h : updateSnapshot config counter key = some effects) : CountsKey config key := by
  intro henabled
  simp only [updateSnapshot, henabled] at h
  rw [if_neg (by decide)] at h
  split at h
  · cases h
  · next hle => exact Nat.le_of_not_lt hle

/-- The key of a get that the get handler has taken is a number that the snapshot counts. -/
theorem key_of_getHandler {request : GetRequest} {answers : GetAnswers}
    (h : getHandler config request answers = some effects) :
    ∃ key, stoi request.key = some key ∧ CountsKey config (UInt64.ofInt key) := by
  simp only [getHandler, Option.bind_eq_bind, Option.bind_eq_some_iff, Option.pure_def,
    Option.some.injEq] at h
  obtain ⟨key, hkey, -, -, total, htotal, -⟩ := h
  exact ⟨key, hkey, countsKey_of_updateSnapshot htotal⟩

/-- `fetch_from_disk` queues nothing. -/
theorem diskRule_appendsOk (request : GetRequest) : DiskRule config request (AppendsOk config) where
  getAsync := fun _ _ => trivial
  blockCacheGet := fun _ _ => trivial
  getResponse := fun _ _ => trivial

/-- Every step queues with `OK`. -/
theorem appendsOk_serverMove (h : serverMove config st label = some (st₁, effects)) :
    ∀ effect ∈ effects, AppendsOk config effect := by
  cases serverMove_cases h with
  | receiveGet hget =>
    obtain ⟨key, hkey, hcounted⟩ := key_of_getHandler hget
    refine forall_mem_getHandler hget (fun _ _ => trivial) (fun _ => trivial) ?_
      (diskRule_appendsOk _)
    intro key' hkey'
    rw [hkey, Option.some.injEq] at hkey'
    subst hkey'
    exact ⟨fun _ _ _ => hcounted, fun _ => trivial, fun _ _ => trivial⟩
  | receivePut => exact List.forall_mem_cons.mpr ⟨trivial, List.forall_mem_singleton.mpr trivial⟩
  | receiveSingletonPut => exact List.forall_mem_singleton.mpr trivial
  | receiveDelete => exact List.forall_mem_singleton.mpr trivial
  | slotReadCompleted hqueue hcallback =>
    exact forall_mem_slotCallback hcallback
      (fun _ => ⟨trivial, fun _ _ => rfl, trivial, trivial, rfl⟩) (fun _ _ => trivial) trivial
      (diskRule_appendsOk _)
  | blockReadCompleted => exact List.forall_mem_singleton.mpr rfl
  | diskReadCompleted _ hcallback => exact forall_mem_diskCallback hcallback trivial rfl
  | sendRdmaGetResponse _ hsend => exact forall_mem_sendQueued hsend trivial
  | sendBlockCacheRequest _ hsend => exact forall_mem_sendQueued hsend trivial
  | sendSingletonPutRequest => exact List.forall_mem_singleton.mpr trivial

/-- The queues after effects. -/
theorem queues_applyEffects (h : ∀ effect ∈ effects, AppendsOk config effect)
    (hreads : ∀ read ∈ st.pendingReads, CountsKey config read.expectedKey)
    (hrdma : ∀ response ∈ st.rdmaGetResponseQueue, response.responseType = .ok)
    (hblock : ∀ response ∈ st.blockCacheRequestQueue, response.responseType = .ok)
    (hsingleton : ∀ put ∈ st.singletonPutRequestQueue, put.responseType = .ok) :
    (∀ read ∈ (applyEffects st effects).pendingReads, CountsKey config read.expectedKey) ∧
    (∀ response ∈ (applyEffects st effects).rdmaGetResponseQueue, response.responseType = .ok) ∧
    (∀ response ∈ (applyEffects st effects).blockCacheRequestQueue, response.responseType = .ok) ∧
    ∀ put ∈ (applyEffects st effects).singletonPutRequestQueue, put.responseType = .ok := by
  induction effects generalizing st with
  | nil => exact ⟨hreads, hrdma, hblock, hsingleton⟩
  | cons effect effects ih =>
    have hfirst := h effect List.mem_cons_self
    have hrest := fun e he => h e (List.mem_cons_of_mem _ he)
    cases effect with
    | readSlot read =>
      exact @ih { st with pendingReads := st.pendingReads ++ [read] } hrest
        (forall_mem_concat hreads hfirst) hrdma hblock hsingleton
    | appendRdmaGetResponse response =>
      exact @ih { st with
        rdmaGetResponseQueue := st.rdmaGetResponseQueue ++ [response] } hrest
        hreads (forall_mem_concat hrdma hfirst) hblock hsingleton
    | appendBlockCacheRequest response =>
      exact @ih { st with
        blockCacheRequestQueue := st.blockCacheRequestQueue ++ [response] } hrest
        hreads hrdma (forall_mem_concat hblock hfirst) hsingleton
    | appendSingletonPutRequest put =>
      exact @ih { st with
        singletonPutRequestQueue := st.singletonPutRequestQueue ++ [put] } hrest
        hreads hrdma hblock (forall_mem_concat hsingleton hfirst)
    | _ => exact ih hrest hreads hrdma hblock hsingleton

/-- The key of a get that a step receives is a number: `stoi` would have thrown. -/
theorem stoi_of_receiveGet {remoteIndex remotePort : ℕ} {key : String} {answers : GetAnswers}
    (h : serverMove config st (.receiveGet remoteIndex remotePort key answers)
      = some (st₁, effects)) : ∃ value, stoi (cStr key) = some value := by
  cases serverMove_cases h with
  | receiveGet hget =>
    obtain ⟨value, hvalue, -⟩ := key_of_getHandler hget
    exact ⟨value, hvalue⟩

/-- Every step keeps what is under way completable. -/
theorem Completable.step (h : Completable config st)
    (hs : serverStep config st label = some st') : Completable config st' := by
  rw [serverStep, Option.map_eq_some_iff] at hs
  obtain ⟨⟨st₁, effects⟩, hmove, rfl⟩ := hs
  have hkeys : RequestsUnderWay config (fun request => ∃ key, stoi request.key = some key)
      (applyEffects st₁ effects) := by
    refine h.keys.step ?_ hmove
    intro remoteIndex remotePort key answers hlabel
    subst hlabel
    exact stoi_of_receiveGet hmove
  have hrest : (∀ read ∈ st₁.pendingReads, CountsKey config read.expectedKey) ∧
      (∀ response ∈ st₁.rdmaGetResponseQueue, response.responseType = .ok) ∧
      (∀ response ∈ st₁.blockCacheRequestQueue, response.responseType = .ok) ∧
      ∀ put ∈ st₁.singletonPutRequestQueue, put.responseType = .ok := by
    cases serverMove_cases hmove with
    | slotReadCompleted hqueue =>
      exact ⟨(forall_mem_dequeueAt hqueue h.counted).2, h.rdmaGetResponseQueue,
        h.blockCacheRequestQueue, h.singletonPutRequestQueue⟩
    | sendRdmaGetResponse hqueue =>
      exact ⟨h.counted, (forall_mem_dequeueAt hqueue h.rdmaGetResponseQueue).2,
        h.blockCacheRequestQueue, h.singletonPutRequestQueue⟩
    | sendBlockCacheRequest hqueue =>
      exact ⟨h.counted, h.rdmaGetResponseQueue,
        (forall_mem_dequeueAt hqueue h.blockCacheRequestQueue).2, h.singletonPutRequestQueue⟩
    | sendSingletonPutRequest hqueue =>
      exact ⟨h.counted, h.rdmaGetResponseQueue, h.blockCacheRequestQueue,
        (forall_mem_dequeueAt hqueue h.singletonPutRequestQueue).2⟩
    | _ =>
      exact ⟨h.counted, h.rdmaGetResponseQueue, h.blockCacheRequestQueue,
        h.singletonPutRequestQueue⟩
  obtain ⟨hreads, hrdma, hblock, hsingleton⟩ := queues_applyEffects (appendsOk_serverMove hmove)
    hrest.1 hrest.2.1 hrest.2.2.1 hrest.2.2.2
  exact ⟨hkeys, hreads, hrdma, hblock, hsingleton⟩

/-- A completion receives nothing. -/
theorem received_serverStep (hcompletes : completes label = true)
    (h : serverStep config st label = some st') : st'.received = st.received := by
  rw [serverStep, Option.map_eq_some_iff] at h
  obtain ⟨⟨st₁, effects⟩, hmove, rfl⟩ := h
  rw [(applyEffects_history st₁ effects).1]
  cases serverMove_cases hmove with
  | receiveGet | receivePut | receiveSingletonPut | receiveDelete => cases hcompletes
  | _ => rfl

/-- What holds along the completions from `st`: the states are reachable, and nothing is
received. -/
def CompletesFrom (config : ServerConfig) (st st' : ServerState) : Prop :=
  Reachable (serverStep config) .initial st' ∧ st'.received = st.received

/-- A completion keeps it. -/
theorem CompletesFrom.step (st₀ st : ServerState) (label : ServerLabel) (st' : ServerState)
    (h : CompletesFrom config st₀ st) (hunderWay : isUnderWay config st label = true)
    (hs : serverStep config st label = some st') : CompletesFrom config st₀ st' :=
  ⟨h.1.tail trivial hs, (received_serverStep (completes_of_isUnderWay hunderWay) hs).trans h.2⟩

end Completion

end TwigKV.Server
