import TwigKV.Foundations.LabelledRun
import TwigKV.Foundations.QueueCensus
import TwigKV.Server.GetHandler

/-! # A server and its threads

A server's loop receives messages and sends the responses queued for it, the completion workers run
the callbacks of indexed reads, the poller of the op pool completes block reads and the database
completes its asynchronous reads. Each of these is one step, with the answers of the environment in
its label: caches, database, index replicas and remote memory are the environment's, so every step
may find anything there.

The queues are shared by several threads and may hand out any of their elements first. Nothing is
ever put in the queue of delete requests, which is left out, as are the set-up messages. -/

namespace TwigKV.Server

/-- What a server has under way. -/
structure ServerState where
  /-- Reads of slots. -/
  pendingReads : List SlotRead
  /-- Reads of blocks. -/
  pendingOps : List BlockRead
  /-- Reads in the database. -/
  pendingDisk : List DiskRead
  /-- `rdma_get_response_queue`. -/
  rdmaGetResponseQueue : List QueuedResponse
  /-- `block_cache_request_queue`. -/
  blockCacheRequestQueue : List QueuedResponse
  /-- `singleton_put_request_queue`. -/
  singletonPutRequestQueue : List QueuedSingletonPut
  /-- The packets sent. -/
  sent : List ServerPacket
  /-- How often each counter of each entry of the snapshot has been increased. -/
  snapshot : UInt64 → SnapshotCounter → ℕ
  /-- Ghost: the get requests received. -/
  received : List GetRequest
  /-- Ghost: those among them whose key was not in the cache. -/
  missed : List GetRequest

/-- A server that has received nothing. -/
def ServerState.initial : ServerState where
  pendingReads := []
  pendingOps := []
  pendingDisk := []
  rdmaGetResponseQueue := []
  blockCacheRequestQueue := []
  singletonPutRequestQueue := []
  sent := []
  snapshot := fun _ _ => 0
  received := []
  missed := []

/-- A counter of a key's entry is increased. -/
def countSnapshot (snapshot : UInt64 → SnapshotCounter → ℕ) (counter : SnapshotCounter)
    (key : UInt64) : UInt64 → SnapshotCounter → ℕ :=
  fun k c => if k = key ∧ c = counter then snapshot k c + 1 else snapshot k c

/-- An effect on the server itself; caches and index replicas are not part of its state. -/
def applyEffect (st : ServerState) : ServerEffect → ServerState
  | .send packet => { st with sent := st.sent ++ [packet] }
  | .snapshot counter key => { st with snapshot := countSnapshot st.snapshot counter key }
  | .readSlot read => { st with pendingReads := st.pendingReads ++ [read] }
  | .readBlock read => { st with pendingOps := st.pendingOps ++ [read] }
  | .getAsync read => { st with pendingDisk := st.pendingDisk ++ [read] }
  | .appendRdmaGetResponse response =>
      { st with rdmaGetResponseQueue := st.rdmaGetResponseQueue ++ [response] }
  | .appendBlockCacheRequest response =>
      { st with blockCacheRequestQueue := st.blockCacheRequestQueue ++ [response] }
  | .appendSingletonPutRequest put =>
      { st with singletonPutRequestQueue := st.singletonPutRequestQueue ++ [put] }
  | .blockCachePut _ _ | .blockCacheGet _ _ | .cachePut _ _ | .putNchance _ _
  | .putAccessRateMatch _ _ | .putSingleton _ _ _ _ | .deleteKey _ | .updateLocalKey _ _ _ => st

/-- The effects of a handler in order. -/
def applyEffects (st : ServerState) (effects : List ServerEffect) : ServerState :=
  effects.foldl applyEffect st

/-- What happens next at a server, with the environment's answers. -/
inductive ServerLabel where
  /-- The loop receives a `GetRequest`. -/
  | receiveGet (remoteIndex remotePort : ℕ) (key : String) (answers : GetAnswers)
  /-- The loop receives a `PutRequest`. -/
  | receivePut (remoteIndex : ℕ) (key value : String)
  /-- The loop receives a `SingletonPutRequest`. -/
  | receiveSingletonPut (key value : String) (singleton : Bool) (forwardCount : ℕ)
  /-- The loop receives a `DeleteRequest`. -/
  | receiveDelete (key : String)
  /-- A completion worker runs the callback of a slot read. -/
  | slotReadCompleted (i : ℕ) (kv : RDMACacheIndexKeyValue) (answers : CallbackAnswers)
  /-- The poller finds a block read completed. -/
  | blockReadCompleted (i : ℕ) (data : String)
  /-- The database runs the callback of `get_async`. -/
  | diskReadCompleted (i : ℕ) (value : String)
  /-- The loop sends a response of an RDMA read. -/
  | sendRdmaGetResponse (i : ℕ)
  /-- The loop sends a response of a database read. -/
  | sendBlockCacheRequest (i : ℕ)
  /-- The loop sends a singleton put request. -/
  | sendSingletonPutRequest (i : ℕ)

/-- What a queued response becomes: "RDMA get failed" and "Disk get failed" where its type is not
`OK`. -/
def sendQueued (response : QueuedResponse) : Option (List ServerEffect) :=
  if response.responseType = .ok then
    some [.send (.getResponse response.request response.value)]
  else none

/-- One step without its effects: the server after it has taken the message or the element of a
queue, and what it does then. -/
def serverMove (config : ServerConfig) (st : ServerState) :
    ServerLabel → Option (ServerState × List ServerEffect)
  | .receiveGet remoteIndex remotePort key answers =>
      let request := ⟨st.received.length, remoteIndex, remotePort, cStr key⟩
      let missed := if answers.existsInCache then st.missed else st.missed ++ [request]
      (getHandler config request answers).map
        ({ st with received := st.received ++ [request], missed := missed }, ·)
  | .receivePut remoteIndex key value =>
      some (st, [.blockCachePut (cStr key) (cStr value), .send (.putResponse remoteIndex)])
  | .receiveSingletonPut key value singleton forwardCount =>
      some (st, [.putSingleton (cStr key) (cStr value) singleton forwardCount])
  | .receiveDelete key => (stoi (cStr key)).map fun _ => (st, [.deleteKey (cStr key)])
  | .slotReadCompleted i kv answers => do
      let (read, rest) ← dequeueAt st.pendingReads i
      (slotCallback config read kv answers).map ({ st with pendingReads := rest }, ·)
  | .blockReadCompleted i data => do
      let (read, rest) ← dequeueAt st.pendingOps i
      some ({ st with pendingOps := rest },
        [.appendRdmaGetResponse ⟨read.request, .ok, valueView config data⟩])
  | .diskReadCompleted i value => do
      let (read, rest) ← dequeueAt st.pendingDisk i
      (diskCallback config read value).map ({ st with pendingDisk := rest }, ·)
  | .sendRdmaGetResponse i => do
      let (response, rest) ← dequeueAt st.rdmaGetResponseQueue i
      (sendQueued response).map ({ st with rdmaGetResponseQueue := rest }, ·)
  | .sendBlockCacheRequest i =>
      if !config.blockDbAsync then none
      else do
        let (response, rest) ← dequeueAt st.blockCacheRequestQueue i
        (sendQueued response).map ({ st with blockCacheRequestQueue := rest }, ·)
  | .sendSingletonPutRequest i => do
      let (put, rest) ← dequeueAt st.singletonPutRequestQueue i
      -- "Singleton put failed" where the type is not `OK`
      if put.responseType = .ok then
        some ({ st with singletonPutRequestQueue := rest },
          [.send (.singletonPutRequest put.index put.port put.evicted)])
      else none

/-- One step: `none` where the label is not enabled or the program stops. -/
def serverStep (config : ServerConfig) (st : ServerState) (label : ServerLabel) :
    Option ServerState :=
  (serverMove config st label).map fun (st', effects) => applyEffects st' effects

/-! ## The moves of a step -/

/-- What a server can do: one constructor for every label, with what its handler has returned. -/
inductive ServerMove (config : ServerConfig) (st : ServerState) :
    ServerLabel → ServerState → List ServerEffect → Prop
  /-- A get request. -/
  | receiveGet {remoteIndex remotePort : ℕ} {key : String} {answers : GetAnswers}
      {effects : List ServerEffect}
      (hget : getHandler config ⟨st.received.length, remoteIndex, remotePort, cStr key⟩ answers
        = some effects) :
      ServerMove config st (.receiveGet remoteIndex remotePort key answers)
        { st with
          received := st.received ++ [⟨st.received.length, remoteIndex, remotePort, cStr key⟩]
          missed := if answers.existsInCache then st.missed
            else st.missed ++ [⟨st.received.length, remoteIndex, remotePort, cStr key⟩] }
        effects
  /-- A put request. -/
  | receivePut {remoteIndex : ℕ} {key value : String} :
      ServerMove config st (.receivePut remoteIndex key value) st
        [.blockCachePut (cStr key) (cStr value), .send (.putResponse remoteIndex)]
  /-- A singleton put request. -/
  | receiveSingletonPut {key value : String} {singleton : Bool} {forwardCount : ℕ} :
      ServerMove config st (.receiveSingletonPut key value singleton forwardCount) st
        [.putSingleton (cStr key) (cStr value) singleton forwardCount]
  /-- A delete request. -/
  | receiveDelete {key : String} :
      ServerMove config st (.receiveDelete key) st [.deleteKey (cStr key)]
  /-- The callback of a slot read. -/
  | slotReadCompleted {i : ℕ} {kv : RDMACacheIndexKeyValue} {answers : CallbackAnswers}
      {read : SlotRead} {rest : List SlotRead} {effects : List ServerEffect}
      (hqueue : dequeueAt st.pendingReads i = some (read, rest))
      (hcallback : slotCallback config read kv answers = some effects) :
      ServerMove config st (.slotReadCompleted i kv answers) { st with pendingReads := rest }
        effects
  /-- The end of a block read. -/
  | blockReadCompleted {i : ℕ} {data : String} {read : BlockRead} {rest : List BlockRead}
      (hqueue : dequeueAt st.pendingOps i = some (read, rest)) :
      ServerMove config st (.blockReadCompleted i data) { st with pendingOps := rest }
        [.appendRdmaGetResponse ⟨read.request, .ok, valueView config data⟩]
  /-- The callback of `get_async`. -/
  | diskReadCompleted {i : ℕ} {value : String} {read : DiskRead} {rest : List DiskRead}
      {effects : List ServerEffect} (hqueue : dequeueAt st.pendingDisk i = some (read, rest))
      (hcallback : diskCallback config read value = some effects) :
      ServerMove config st (.diskReadCompleted i value) { st with pendingDisk := rest } effects
  /-- A response of an RDMA read. -/
  | sendRdmaGetResponse {i : ℕ} {response : QueuedResponse} {rest : List QueuedResponse}
      {effects : List ServerEffect}
      (hqueue : dequeueAt st.rdmaGetResponseQueue i = some (response, rest))
      (hsend : sendQueued response = some effects) :
      ServerMove config st (.sendRdmaGetResponse i) { st with rdmaGetResponseQueue := rest }
        effects
  /-- A response of a database read. -/
  | sendBlockCacheRequest {i : ℕ} {response : QueuedResponse} {rest : List QueuedResponse}
      {effects : List ServerEffect}
      (hqueue : dequeueAt st.blockCacheRequestQueue i = some (response, rest))
      (hsend : sendQueued response = some effects) :
      ServerMove config st (.sendBlockCacheRequest i) { st with blockCacheRequestQueue := rest }
        effects
  /-- A singleton put request is sent. -/
  | sendSingletonPutRequest {i : ℕ} {put : QueuedSingletonPut} {rest : List QueuedSingletonPut}
      (hqueue : dequeueAt st.singletonPutRequestQueue i = some (put, rest)) :
      ServerMove config st (.sendSingletonPutRequest i) { st with singletonPutRequestQueue := rest }
        [.send (.singletonPutRequest put.index put.port put.evicted)]

/-- Every step is one of the moves. -/
theorem serverMove_cases {config : ServerConfig} {st st₁ : ServerState} {label : ServerLabel}
    {effects : List ServerEffect} (h : serverMove config st label = some (st₁, effects)) :
    ServerMove config st label st₁ effects := by
  cases label with
  | receiveGet remoteIndex remotePort key answers =>
    simp only [serverMove, Option.map_eq_some_iff, Prod.mk.injEq] at h
    obtain ⟨effects', hget, rfl, rfl⟩ := h
    exact .receiveGet hget
  | receivePut remoteIndex key value =>
    cases h
    exact .receivePut
  | receiveSingletonPut key value singleton forwardCount =>
    cases h
    exact .receiveSingletonPut
  | receiveDelete key =>
    simp only [serverMove, Option.map_eq_some_iff, Prod.mk.injEq] at h
    obtain ⟨_, _, rfl, rfl⟩ := h
    exact .receiveDelete
  | slotReadCompleted i kv answers =>
    simp only [serverMove, Option.bind_eq_bind, Option.bind_eq_some_iff, Option.map_eq_some_iff,
      Prod.mk.injEq] at h
    obtain ⟨⟨read, rest⟩, hqueue, effects', hcallback, rfl, rfl⟩ := h
    exact .slotReadCompleted hqueue hcallback
  | blockReadCompleted i data =>
    simp only [serverMove, Option.bind_eq_bind, Option.bind_eq_some_iff, Option.some.injEq,
      Prod.mk.injEq] at h
    obtain ⟨⟨read, rest⟩, hqueue, rfl, rfl⟩ := h
    exact .blockReadCompleted hqueue
  | diskReadCompleted i value =>
    simp only [serverMove, Option.bind_eq_bind, Option.bind_eq_some_iff, Option.map_eq_some_iff,
      Prod.mk.injEq] at h
    obtain ⟨⟨read, rest⟩, hqueue, effects', hcallback, rfl, rfl⟩ := h
    exact .diskReadCompleted hqueue hcallback
  | sendRdmaGetResponse i =>
    simp only [serverMove, Option.bind_eq_bind, Option.bind_eq_some_iff, Option.map_eq_some_iff,
      Prod.mk.injEq] at h
    obtain ⟨⟨response, rest⟩, hqueue, effects', hsend, rfl, rfl⟩ := h
    exact .sendRdmaGetResponse hqueue hsend
  | sendBlockCacheRequest i =>
    simp only [serverMove] at h
    split at h
    · cases h
    · simp only [Option.bind_eq_bind, Option.bind_eq_some_iff, Option.map_eq_some_iff,
        Prod.mk.injEq] at h
      obtain ⟨⟨response, rest⟩, hqueue, effects', hsend, rfl, rfl⟩ := h
      exact .sendBlockCacheRequest hqueue hsend
  | sendSingletonPutRequest i =>
    simp only [serverMove, Option.bind_eq_bind, Option.bind_eq_some_iff] at h
    obtain ⟨⟨put, rest⟩, hqueue, h⟩ := h
    split at h
    · cases h
      exact .sendSingletonPutRequest hqueue
    · cases h

/-- The first of three servers with cache indexing, for values of one byte. -/
def indexingConfig (rdmaAsync : Bool) : ServerConfig where
  oneSidedRdmaEnabled := true
  useCacheIndexing := true
  ingestBlockIndex := true
  rdmaAsync := rdmaAsync
  diskAsync := true
  blockDbAsync := true
  operationsPolluteCache := true
  policyType := .other
  valueSize := 1
  opsConfig := ⟨3, 3⟩
  snapshotEnabled := false
  keyMin := 0
  keyMax := 1
  serverStartIndex := 3
  numServers := 3
  baseIndex := 0
  port := 8000
  threadIndex := 0
  keyValuePtrInvalid := -1

end TwigKV.Server
