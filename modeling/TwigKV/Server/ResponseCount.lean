import TwigKV.Server.Machine

/-! # One response for each get

Every get request owes one response, which is sent, waits in a queue or is still to come from a
read. Counting the responses sent and owed for a request over the effects of every handler shows
that nothing is lost or doubled, with one exception: with cache indexing and `RDMA_ASYNC` off the
get handler also sends what happens to be in its read buffer for every key that is not cached. When
nothing is under way any more, every request has been answered once exactly when that did not happen
(`one_response_iff`). -/

namespace TwigKV.Server

/-- The configurations in which a get that misses the cache sends the read buffer besides posting
its read. -/
def ServerConfig.sendsReadBuffer (config : ServerConfig) : Bool :=
  config.oneSidedRdmaEnabled && config.useCacheIndexing && !config.rdmaAsync

/-- Nothing that can still lead to a response is under way. -/
structure Quiescent (st : ServerState) : Prop where
  /-- No read of a slot. -/
  pendingReads : st.pendingReads = []
  /-- No read of a block. -/
  pendingOps : st.pendingOps = []
  /-- No read in the database. -/
  pendingDisk : st.pendingDisk = []
  /-- No response of an RDMA read in the queue. -/
  rdmaGetResponseQueue : st.rdmaGetResponseQueue = []
  /-- No response of a database read in the queue. -/
  blockCacheRequestQueue : st.blockCacheRequestQueue = []

/-- Counts a request as 1 if it is number `id`. -/
def ofRequest (id : ℕ) (request : GetRequest) : ℕ := if request.id = id then 1 else 0

/-- Counts a packet that answers request `id`. -/
def packetWeight (id : ℕ) : ServerPacket → ℕ
  | .getResponse request _ => ofRequest id request
  | .putResponse _ | .singletonPutRequest _ _ _ => 0

/-- The responses to request `id` that have been sent. -/
def responsesTo (st : ServerState) (id : ℕ) : ℕ := weight (packetWeight id) st.sent

/-- Counts an effect that answers request `id` now or later. -/
def effectWeight (id : ℕ) : ServerEffect → ℕ
  | .send packet => packetWeight id packet
  | .readSlot read => ofRequest id read.request
  | .readBlock read => ofRequest id read.request
  | .getAsync read => ofRequest id read.request
  | .appendRdmaGetResponse response | .appendBlockCacheRequest response =>
      ofRequest id response.request
  | .snapshot _ _ | .blockCachePut _ _ | .blockCacheGet _ _ | .cachePut _ _ | .putNchance _ _
  | .putAccessRateMatch _ _ | .putSingleton _ _ _ _ | .deleteKey _ | .updateLocalKey _ _ _
  | .appendSingletonPutRequest _ => 0

/-- The responses to request `id` that are under way. -/
def underWay (st : ServerState) (id : ℕ) : ℕ :=
  weight (fun read => ofRequest id read.request) st.pendingReads +
    weight (fun read => ofRequest id read.request) st.pendingOps +
    weight (fun read => ofRequest id read.request) st.pendingDisk +
    weight (fun response => ofRequest id response.request) st.rdmaGetResponseQueue +
    weight (fun response => ofRequest id response.request) st.blockCacheRequestQueue

/-- An effect adds its weight to the responses sent and under way. -/
theorem count_applyEffect (st : ServerState) (id : ℕ) (effect : ServerEffect) :
    responsesTo (applyEffect st effect) id + underWay (applyEffect st effect) id
      = responsesTo st id + underWay st id + effectWeight id effect := by
  cases effect <;>
    simp only [applyEffect, responsesTo, underWay, effectWeight, weight_append, weight_cons,
      weight_nil] <;>
    omega

/-- The effects of a handler add their weights. -/
theorem count_applyEffects (st : ServerState) (id : ℕ) (effects : List ServerEffect) :
    responsesTo (applyEffects st effects) id + underWay (applyEffects st effects) id
      = responsesTo st id + underWay st id + weight (effectWeight id) effects := by
  induction effects generalizing st with
  | nil => rfl
  | cons effect effects ih =>
    show responsesTo (applyEffects (applyEffect st effect) effects) id +
      underWay (applyEffects (applyEffect st effect) effects) id = _
    rw [ih, count_applyEffect, weight_cons]
    omega

/-! ## The weight of a handler's effects -/

section Weights

variable {config : ServerConfig} {request : GetRequest} {keyIndex : UInt64}
  {effects : List ServerEffect} (id : ℕ)

/-- Snapshot counters answer nothing. -/
theorem weight_updateSnapshot {counter : SnapshotCounter}
    (h : updateSnapshot config counter keyIndex = some effects) :
    weight (effectWeight id) effects = 0 := by
  unfold updateSnapshot at h
  split at h
  · cases h
    rfl
  · split at h
    · cases h
    · cases h
      rfl

/-- With `DISK_ASYNC` the read of `fetch_from_disk` answers its request, otherwise it does not. -/
theorem weight_readFromDisk {addToCache : Bool} {disk : DiskAnswers} {value : String}
    (h : readFromDisk config request addToCache disk = some (effects, value)) :
    weight (effectWeight id) effects = if config.diskAsync then ofRequest id request else 0 := by
  unfold readFromDisk at h
  split at h
  · split at h
    · next hasync =>
      cases h
      rw [if_pos hasync]
      rfl
    · next hasync =>
      cases h
      rw [if_neg hasync]
      rfl
  · split at h
    · next hasync =>
      cases h
      rw [if_pos hasync]
      rfl
    · next hasync =>
      rw [Option.map_eq_some_iff] at h
      obtain ⟨_, _, heq⟩ := h
      cases heq
      rw [if_neg hasync]
      rfl

/-- `fetch_from_disk` answers its request once. -/
theorem weight_fetchFromDisk {addToCache : Bool} {disk : DiskAnswers}
    (h : fetchFromDisk config request keyIndex addToCache disk = some effects) :
    weight (effectWeight id) effects = ofRequest id request := by
  simp only [fetchFromDisk, Option.bind_eq_bind, Option.bind_eq_some_iff, Option.pure_def,
    Option.some.injEq] at h
  obtain ⟨access, haccess, ⟨reads, value⟩, hreads, rfl⟩ := h
  rw [weight_append, weight_append, weight_updateSnapshot id haccess, weight_readFromDisk id hreads]
  -- without `DISK_ASYNC` the last line answers
  cases config.diskAsync with
  | true => simp
  | false => simp [effectWeight, packetWeight]

/-- The callback of `get_async` answers its request once. -/
theorem weight_diskCallback {read : DiskRead} {value : String}
    (h : diskCallback config read value = some effects) :
    weight (effectWeight id) effects = ofRequest id read.request := by
  rw [diskCallback, Option.map_eq_some_iff] at h
  obtain ⟨puts, hputs, rfl⟩ := h
  have hnone : weight (effectWeight id) puts = 0 := by
    unfold diskCachePut at hputs
    split at hputs
    · cases hputs
      rfl
    · cases hputs
      rfl
    · rw [Option.map_eq_some_iff] at hputs
      obtain ⟨k, _, rfl⟩ := hputs
      split <;> rfl
  rw [weight_append, hnone, Nat.zero_add, weight_cons, weight_nil, effectWeight]
  rfl

/-- A queued response that is sent answers its request once. -/
theorem weight_sendQueued {response : QueuedResponse}
    (h : sendQueued response = some effects) :
    weight (effectWeight id) effects = ofRequest id response.request := by
  unfold sendQueued at h
  split at h
  · cases h
    rfl
  · cases h

/-- The remote read answers its request if it finds a slot or a block and `RDMA_ASYNC` or the index
is on. -/
theorem weight_remoteRead {answers : GetAnswers} {foundInRdma : Bool}
    (h : remoteRead config request keyIndex answers = some (effects, foundInRdma)) :
    weight (effectWeight id) effects =
      if foundInRdma && (config.useCacheIndexing || config.rdmaAsync) then ofRequest id request
      else 0 := by
  unfold remoteRead at h
  split at h
  · next hindex =>
    rw [Option.some.injEq, readCallback] at h
    split at h
    · cases h
      simp [hindex, effectWeight]
    · cases h
      simp
  · next hindex =>
    rw [Option.map_eq_some_iff] at h
    obtain ⟨reads, hreads, heq⟩ := h
    cases heq
    rw [readCorrectNode, Option.bind_eq_some_iff] at hreads
    obtain ⟨_, _, hreads⟩ := hreads
    split at hreads
    · next hasync =>
      split at hreads
      · cases hreads
        simp [hasync, effectWeight]
      · cases hreads
    · next hasync =>
      cases hreads
      simp [hindex, hasync]

/-- The RDMA part of the get handler answers its request if it has found it, and once more in the
configurations that send the read buffer. -/
theorem weight_getFromRdma {answers : GetAnswers} {foundInRdma : Bool}
    (h : getFromRdma config request keyIndex answers = some (effects, foundInRdma)) :
    weight (effectWeight id) effects =
      (if foundInRdma then ofRequest id request else 0) +
        if config.sendsReadBuffer then ofRequest id request else 0 := by
  unfold getFromRdma at h
  split at h
  · next hrdma =>
    cases h
    have hoff : config.oneSidedRdmaEnabled = false := by simpa using hrdma
    simp [ServerConfig.sendsReadBuffer, hoff]
  · next hrdma =>
    split at h
    · cases h
    · rw [Option.map_eq_some_iff] at h
      obtain ⟨⟨reads, found⟩, hreads, heq⟩ := h
      cases heq
      have hon : config.oneSidedRdmaEnabled = true := by simpa using hrdma
      rw [weight_append, weight_remoteRead id hreads, ServerConfig.sendsReadBuffer, hon]
      -- a block is always found; without `RDMA_ASYNC` the read buffer is its response
      have hblock : config.useCacheIndexing = false → foundInRdma = true := by
        intro hindex
        rw [remoteRead, hindex] at hreads
        simp only [Bool.false_eq_true, if_false, Option.map_eq_some_iff] at hreads
        obtain ⟨_, _, heq⟩ := hreads
        cases heq
        rfl
      cases hindex : config.useCacheIndexing with
      | true => cases config.rdmaAsync <;> simp [effectWeight, packetWeight]
      | false =>
        rw [hblock hindex]
        cases config.rdmaAsync <;> simp [effectWeight, packetWeight]

/-- The get handler answers its request once, and once more where it sends the read buffer for a key
that is not cached. -/
theorem weight_getHandler {answers : GetAnswers}
    (h : getHandler config request answers = some effects) :
    weight (effectWeight id) effects = ofRequest id request +
      if config.sendsReadBuffer && !answers.existsInCache then ofRequest id request else 0 := by
  simp only [getHandler, Option.bind_eq_bind, Option.bind_eq_some_iff, Option.pure_def,
    Option.some.injEq] at h
  obtain ⟨key, -, outcome, houtcome, total, htotal, rfl⟩ := h
  rw [weight_append, weight_updateSnapshot id htotal, Nat.add_zero]
  cases hcached : answers.existsInCache with
  | true =>
    rw [hcached, cond_true, getHit, Option.map_eq_some_iff] at houtcome
    obtain ⟨hit, hhit, rfl⟩ := houtcome
    rw [weight_append, weight_updateSnapshot id hhit]
    simp [effectWeight, packetWeight]
  | false =>
    rw [hcached, cond_false] at houtcome
    simp only [getMiss, Option.bind_eq_bind, Option.bind_eq_some_iff, Option.pure_def,
      Option.some.injEq] at houtcome
    obtain ⟨miss, hmiss, ⟨rdma, found⟩, hrdma, fetch, hfetch, rfl⟩ := houtcome
    rw [weight_append, weight_append, weight_updateSnapshot id hmiss, weight_getFromRdma id hrdma]
    -- what has not been found remotely is fetched from the local disk
    have hlocal : weight (effectWeight id) fetch = if found then 0 else ofRequest id request := by
      cases found with
      | true =>
        cases hfetch
        rfl
      | false =>
        simp only [cond_false, getFromLocalDisk, Option.bind_eq_bind, Option.bind_eq_some_iff,
          Option.pure_def, Option.some.injEq] at hfetch
        obtain ⟨localAccess, hlocal, fetch', hfetch', rfl⟩ := hfetch
        rw [weight_append, weight_updateSnapshot id hlocal, weight_fetchFromDisk id hfetch']
        simp
    rw [hlocal]
    cases found with
    | true => simp
    | false =>
      simp only [Bool.false_eq_true, if_false, Bool.not_false, Bool.and_true]
      omega

/-- The callback of an indexed read answers its request once. -/
theorem weight_slotCallback {read : SlotRead} {kv : RDMACacheIndexKeyValue}
    {answers : CallbackAnswers} (h : slotCallback config read kv answers = some effects) :
    weight (effectWeight id) effects = ofRequest id read.request := by
  unfold slotCallback at h
  split at h
  · rw [slotMatch, Option.map_eq_some_iff] at h
    obtain ⟨accessRate, haccessRate, rfl⟩ := h
    have hnchance : ∀ key value, weight (effectWeight id)
        (nchanceEffects config key value answers.evicted) = 0 := by
      intro key value
      unfold nchanceEffects
      split
      · cases answers.evicted <;> rfl
      · rfl
    have hcount : weight (effectWeight id) accessRate = 0 := by
      unfold accessRateEffects at haccessRate
      split at haccessRate
      · rw [Option.map_eq_some_iff] at haccessRate
        obtain ⟨count, hcount, rfl⟩ := haccessRate
        rw [weight_cons]
        split at hcount
        · rw [weight_updateSnapshot id hcount]
          rfl
        · cases hcount
          rfl
      · cases haccessRate
        rfl
    rw [weight_append, weight_append, hnchance, hcount]
    simp [effectWeight]
  · simp only [slotMismatch, Option.bind_eq_bind, Option.bind_eq_some_iff, Option.pure_def,
      Option.some.injEq] at h
    obtain ⟨remoteAccess, hremote, fetch, hfetch, rfl⟩ := h
    rw [weight_append, weight_cons, weight_updateSnapshot id hremote,
      weight_fetchFromDisk id hfetch]
    simp [effectWeight]

end Weights

/-! ## Runs -/

/-- The responses a server owes for request `id`: one if it has received it, and one more if it
sends its read buffer for a key that is not cached. -/
def owed (config : ServerConfig) (st : ServerState) (id : ℕ) : ℕ :=
  weight (ofRequest id) st.received +
    if config.sendsReadBuffer then weight (ofRequest id) st.missed else 0

/-- The responses sent and under way are those owed. -/
def Balanced (config : ServerConfig) (st : ServerState) : Prop :=
  ∀ id, responsesTo st id + underWay st id = owed config st id

/-- Requests are numbered in the order they are received, and the missed ones are among them. -/
structure Numbered (st : ServerState) : Prop where
  /-- The numbers. -/
  received : st.received.map GetRequest.id = List.range st.received.length
  /-- The missed ones. -/
  missed : ∀ request ∈ st.missed, request ∈ st.received

/-- Effects leave the history of requests. -/
theorem applyEffects_history (st : ServerState) (effects : List ServerEffect) :
    (applyEffects st effects).received = st.received ∧
      (applyEffects st effects).missed = st.missed := by
  induction effects generalizing st with
  | nil => exact ⟨rfl, rfl⟩
  | cons effect effects ih =>
    obtain ⟨hreceived, hmissed⟩ := ih (applyEffect st effect)
    show (applyEffects (applyEffect st effect) effects).received = _ ∧
      (applyEffects (applyEffect st effect) effects).missed = _
    rw [hreceived, hmissed]
    cases effect <;> exact ⟨rfl, rfl⟩

/-- Taking a message or an element of a queue and what follows from it keep the balance. -/
theorem owed_serverMove {config : ServerConfig} {st st₁ : ServerState} {label : ServerLabel}
    {effects : List ServerEffect} (id : ℕ)
    (h : serverMove config st label = some (st₁, effects)) :
    responsesTo st₁ id + underWay st₁ id + weight (effectWeight id) effects + owed config st id
      = responsesTo st id + underWay st id + owed config st₁ id := by
  cases serverMove_cases h with
  | @receiveGet _ _ _ answers _ hget =>
    have hweight := weight_getHandler id hget
    simp only [responsesTo, underWay, owed, weight_append, weight_cons, weight_nil, hweight]
    -- a missed get weighs one more exactly where the read buffer is sent
    cases config.sendsReadBuffer with
    | false =>
      simp only [Bool.false_and, Bool.false_eq_true, if_false]
      omega
    | true =>
      cases answers.existsInCache with
      | true =>
        simp only [Bool.not_true, Bool.and_false, Bool.false_eq_true, if_false, if_true]
        omega
      | false =>
        simp only [Bool.not_false, Bool.and_true, Bool.false_eq_true, if_false, if_true,
          weight_append, weight_cons, weight_nil]
        omega
  | receivePut | receiveSingletonPut | receiveDelete => rfl
  | slotReadCompleted hqueue hcallback =>
    have htaken := weight_of_dequeueAt (fun read : SlotRead => ofRequest id read.request) hqueue
    have hweight := weight_slotCallback id hcallback
    simp only [responsesTo, underWay, owed, hweight, htaken]
    omega
  | blockReadCompleted hqueue =>
    have htaken := weight_of_dequeueAt (fun read : BlockRead => ofRequest id read.request) hqueue
    simp only [responsesTo, underWay, owed, htaken, weight_cons, weight_nil, effectWeight]
    omega
  | diskReadCompleted hqueue hcallback =>
    have htaken := weight_of_dequeueAt (fun read : DiskRead => ofRequest id read.request) hqueue
    have hweight := weight_diskCallback id hcallback
    simp only [responsesTo, underWay, owed, hweight, htaken]
    omega
  | sendRdmaGetResponse hqueue hsend | sendBlockCacheRequest hqueue hsend =>
    have htaken :=
      weight_of_dequeueAt (fun response : QueuedResponse => ofRequest id response.request) hqueue
    have hweight := weight_sendQueued id hsend
    simp only [responsesTo, underWay, owed, hweight, htaken]
    omega
  | sendSingletonPutRequest hqueue => rfl

/-- Every step keeps the balance. -/
theorem Balanced.step {config : ServerConfig} {st st' : ServerState} {label : ServerLabel}
    (h : Balanced config st) (hs : serverStep config st label = some st') :
    Balanced config st' := by
  rw [serverStep, Option.map_eq_some_iff] at hs
  obtain ⟨⟨st₁, effects⟩, hmove, rfl⟩ := hs
  intro id
  obtain ⟨hreceived, hmissed⟩ := applyEffects_history st₁ effects
  have howed : owed config (applyEffects st₁ effects) id = owed config st₁ id := by
    rw [owed, owed, hreceived, hmissed]
  have hold := h id
  have hmoved := owed_serverMove id hmove
  rw [howed, count_applyEffects]
  omega

/-- A move changes the history of requests only when it receives one. -/
theorem Numbered.serverMove {config : ServerConfig} {st st₁ : ServerState} {label : ServerLabel}
    {effects : List ServerEffect} (h : Numbered st)
    (hmove : serverMove config st label = some (st₁, effects)) : Numbered st₁ := by
  cases serverMove_cases hmove with
  | receiveGet hget =>
    refine ⟨?_, ?_⟩
    · rw [List.map_append, h.received, List.length_append, List.length_singleton,
        List.range_succ]
      rfl
    · intro request hrequest
      rw [List.mem_append]
      simp only at hrequest
      split at hrequest
      · exact Or.inl (h.missed request hrequest)
      · rw [List.mem_append] at hrequest
        exact hrequest.imp_left (h.missed request)
  | receivePut | receiveSingletonPut | receiveDelete => exact h
  | slotReadCompleted | blockReadCompleted | diskReadCompleted | sendRdmaGetResponse
  | sendBlockCacheRequest | sendSingletonPutRequest => exact ⟨h.received, h.missed⟩

/-- Every step keeps the numbering. -/
theorem Numbered.step {config : ServerConfig} {st st' : ServerState} {label : ServerLabel}
    (h : Numbered st) (hs : serverStep config st label = some st') : Numbered st' := by
  rw [serverStep, Option.map_eq_some_iff] at hs
  obtain ⟨⟨st₁, effects⟩, hmove, rfl⟩ := hs
  have hmoved := h.serverMove hmove
  obtain ⟨hreceived, hmissed⟩ := applyEffects_history st₁ effects
  refine ⟨?_, ?_⟩
  · rw [hreceived]
    exact hmoved.received
  · rw [hreceived, hmissed]
    exact hmoved.missed

/-- The balance and the numbering hold in every state of every run. -/
theorem balanced_of_reachable {config : ServerConfig} {st : ServerState}
    (h : Reachable (serverStep config) .initial st) : Balanced config st ∧ Numbered st := by
  refine h.invariant (I := fun s => Balanced config s ∧ Numbered s) ?_ ?_
  · refine ⟨?_, rfl, fun request hrequest => absurd hrequest List.not_mem_nil⟩
    intro id
    show 0 = owed config .initial id
    unfold owed
    split <;> rfl
  · intro s l s' _ hinv _ hs
    exact ⟨hinv.1.step hs, hinv.2.step hs⟩

/-! ## Once nothing is under way -/

/-- Counting a request is counting its number. -/
theorem weight_ofRequest (id : ℕ) (requests : List GetRequest) :
    weight (ofRequest id) requests = (requests.map GetRequest.id).count id := by
  induction requests with
  | nil => rfl
  | cons request requests ih =>
    rw [weight_cons, ih, List.map_cons, List.count_cons, ofRequest, Nat.add_comm]
    simp only [beq_iff_eq]

/-- A request received is counted once. -/
theorem Numbered.weight_received {st : ServerState} (h : Numbered st) {request : GetRequest}
    (hrequest : request ∈ st.received) : weight (ofRequest request.id) st.received = 1 := by
  have hid : request.id ∈ st.received.map GetRequest.id := List.mem_map_of_mem hrequest
  rw [weight_ofRequest]
  rw [h.received] at hid ⊢
  exact List.count_eq_one_of_mem List.nodup_range hid

/-- Once nothing is under way the responses sent are those owed. -/
theorem responsesTo_of_quiescent {config : ServerConfig} {st : ServerState}
    (hbalanced : Balanced config st) (hquiescent : Quiescent st) (id : ℕ) :
    responsesTo st id = owed config st id := by
  have hnone : underWay st id = 0 := by
    unfold underWay
    rw [hquiescent.pendingReads, hquiescent.pendingOps, hquiescent.pendingDisk,
      hquiescent.rdmaGetResponseQueue, hquiescent.blockCacheRequestQueue]
    rfl
  have hbalance := hbalanced id
  rw [hnone] at hbalance
  exact hbalance

/-- **One response for each get.** Once nothing is under way, every get request has been answered
exactly once if and only if no key was missing from the cache in a configuration that sends the read
buffer. -/
theorem one_response_iff (config : ServerConfig) {st : ServerState}
    (h : Reachable (serverStep config) .initial st) (hquiescent : Quiescent st) :
    (∀ request ∈ st.received, responsesTo st request.id = 1) ↔
      (config.sendsReadBuffer = true → st.missed = []) := by
  obtain ⟨hbalanced, hnumbered⟩ := balanced_of_reachable h
  constructor
  · intro hone hbuffer
    by_contra hmissed
    obtain ⟨request, rest, hcons⟩ := List.exists_cons_of_ne_nil hmissed
    have hmem : request ∈ st.missed := by
      rw [hcons]
      exact List.mem_cons_self
    have hreceived := hnumbered.missed request hmem
    -- the response owed for the request and the read buffer
    have htwo := hone request hreceived
    rw [responsesTo_of_quiescent hbalanced hquiescent, owed, hnumbered.weight_received hreceived,
      if_pos hbuffer, weight_ofRequest] at htwo
    have hpos : 0 < (st.missed.map GetRequest.id).count request.id :=
      List.count_pos_iff.mpr (List.mem_map_of_mem hmem)
    omega
  · intro hmissed request hrequest
    rw [responsesTo_of_quiescent hbalanced hquiescent, owed, hnumbered.weight_received hrequest]
    split
    · next hbuffer =>
      rw [hmissed hbuffer]
      rfl
    · rfl

/-- A get of key 1 that the cache does not hold and another server does. -/
def missedGetRun : List ServerLabel :=
  [.receiveGet 1 9000 "1" ⟨false, "", fun _ => 0, true, "B", ⟨"", none⟩⟩,
    .slotReadCompleted 0 ⟨1, "A"⟩ ⟨none, false, ⟨"", none⟩⟩,
    .sendRdmaGetResponse 0]

/-- With `RDMA_ASYNC` the missed get is answered once. -/
theorem one_response_iff_missed_get :
    ∃ st, runLabels (serverStep (indexingConfig true)) .initial missedGetRun = some st ∧
      st.received.length = 1 ∧
      ((∀ request ∈ st.received, responsesTo st request.id = 1) ↔
        ((indexingConfig true).sendsReadBuffer = true → st.missed = [])) :=
  ⟨_, rfl, rfl, one_response_iff (indexingConfig true)
    (reachable_of_runLabels missedGetRun rfl) ⟨rfl, rfl, rfl, rfl, rfl⟩⟩

/-- Without `RDMA_ASYNC` the missed get is answered twice. -/
theorem missed_get_answered_twice :
    ¬ ∀ (config : ServerConfig) (st : ServerState), Reachable (serverStep config) .initial st →
      Quiescent st → ∀ request ∈ st.received, responsesTo st request.id = 1 := by
  intro h
  have hrun : ∃ st, runLabels (serverStep (indexingConfig false)) .initial missedGetRun = some st ∧
      Quiescent st ∧ st.received = [⟨0, 1, 9000, "1"⟩] ∧ responsesTo st 0 = 2 :=
    ⟨_, rfl, ⟨rfl, rfl, rfl, rfl, rfl⟩, rfl, rfl⟩
  obtain ⟨st, hst, hquiescent, hreceived, htwo⟩ := hrun
  have hone := h (indexingConfig false) st (reachable_of_runLabels missedGetRun hst) hquiescent
    ⟨0, 1, 9000, "1"⟩ (by rw [hreceived]; exact List.mem_cons_self)
  rw [htwo] at hone
  exact absurd hone (by decide)

end TwigKV.Server
