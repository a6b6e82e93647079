import TwigKV.Foundations.CText
import TwigKV.Foundations.DecimalText
import TwigKV.Placement.BlockStore

/-! # The handlers of the server loop (`server_worker`, `ldc.cpp`)

A handler is a function from the message and the answers of its environment (the block cache, the
database, the index replicas, the memory it reads) to what it does, a list of effects in order:
packets sent, entries put in caches and queues, reads posted. `none` is a panic, an exception or a
null pointer: the program stops there. The completion of an indexed RDMA read and the callback of
`get_async` are handlers of their own, as they run later on other threads.

Statistics (hit counters, latencies, `update_frequency`) are left out, except for those of the
snapshot. A text is a sequence of bytes, one character for each. -/

namespace TwigKV.Server

/-! ## Configuration -/

/-- `policy_type`, as far as the handlers distinguish it. -/
inductive PolicyType where
  /-- `"nchance"`. -/
  | nchance
  /-- `"access_rate"`. -/
  | accessRate
  /-- `"access_rate_dynamic"`. -/
  | accessRateDynamic
  /-- Any other policy. -/
  | other
deriving DecidableEq, Repr

/-- What a server thread reads of `BlockCacheConfig`, `Configuration` and its command line. -/
structure ServerConfig where
  /-- `baseline.one_sided_rdma_enabled`. -/
  oneSidedRdmaEnabled : Bool
  /-- `baseline.use_cache_indexing`. -/
  useCacheIndexing : Bool
  /-- `ingest_block_index`. -/
  ingestBlockIndex : Bool
  /-- `RDMA_ASYNC`. -/
  rdmaAsync : Bool
  /-- `DISK_ASYNC`. -/
  diskAsync : Bool
  /-- `db.block_db.async`. -/
  blockDbAsync : Bool
  /-- `operations_pollute_cache`. -/
  operationsPolluteCache : Bool
  /-- `policy_type`. -/
  policyType : PolicyType
  /-- `VALUE_SIZE`. -/
  valueSize : ℕ
  /-- `NUM_KEY_VALUE_PAIRS` and `NUM_NODES`. -/
  opsConfig : Configuration
  /-- `dump_snapshot_period_ms` is not 0. -/
  snapshotEnabled : Bool
  /-- `key_min`, the first key of this server. -/
  keyMin : UInt64
  /-- `key_max`, the end of this server's keys. -/
  keyMax : UInt64
  /-- `server_start_index`: the machine index of the first server. -/
  serverStartIndex : ℕ
  /-- `num_servers`. -/
  numServers : ℕ
  /-- `base_index`: this server among the servers. -/
  baseIndex : ℕ
  /-- The port of this machine. -/
  port : ℕ
  /-- The index of this thread. -/
  threadIndex : ℕ
  /-- `KEY_VALUE_PTR_INVALID` of the cache library. -/
  keyValuePtrInvalid : UInt64

/-! ## Messages and effects -/

/-- A `GetRequest` that has been received; `id` numbers the requests of the server as a ghost. -/
structure GetRequest where
  /-- Ghost: the number of the request. -/
  id : ℕ
  /-- The machine it came from. -/
  remoteIndex : ℕ
  /-- The port it came from. -/
  remotePort : ℕ
  /-- The key. -/
  key : String
deriving DecidableEq, Repr

/-- `ResponseType`. -/
inductive ResponseType where
  /-- `OK`. -/
  | ok
  /-- `ERR`. -/
  | err
deriving DecidableEq, Repr

/-- `RDMACacheIndexKeyValue`: a slot of a server's key-value storage. -/
structure RDMACacheIndexKeyValue where
  /-- `key_index`. -/
  keyIndex : UInt64
  /-- `data`. -/
  data : String
deriving DecidableEq, Repr

/-- `EvictionCallbackData`. -/
structure EvictionCallbackData where
  /-- The key evicted. -/
  key : String
  /-- Its value. -/
  value : String
  /-- No other server caches it. -/
  singleton : Bool
  /-- How often it has been forwarded. -/
  forwardCount : ℕ
deriving DecidableEq, Repr

/-- A posted read of a slot: `DataWithRequestToken`, with what its callback captures. -/
structure SlotRead where
  /-- The request. -/
  request : GetRequest
  /-- `expected_key`. -/
  expectedKey : UInt64
  /-- The server read from. -/
  remoteIndex : ℕ
  /-- `key_value_ptr_offset` of the slot. -/
  offset : UInt64
deriving DecidableEq, Repr

/-- A posted read of a block: `AsyncRdmaOp`, with the request it carries. Which block is read is the
subject of the placement model. -/
structure BlockRead where
  /-- The request. -/
  request : GetRequest
deriving DecidableEq, Repr

/-- Which of the two callbacks `fetch_from_disk` passes to `get_async`. -/
inductive DiskCallback where
  /-- The pair is put in the cache. -/
  | addToCache
  /-- The pair is put in the cache if `add_to_cache` is set and the key is one of this server. -/
  | checkRange (addToCache : Bool)
deriving DecidableEq, Repr

/-- A read under way in the database. -/
structure DiskRead where
  /-- The request. -/
  request : GetRequest
  /-- The callback. -/
  callback : DiskCallback
deriving DecidableEq, Repr

/-- `RDMAGetResponse` and `BlockCacheRequest`: a response that the server loop will send. -/
structure QueuedResponse where
  /-- The request. -/
  request : GetRequest
  /-- `response_type`. -/
  responseType : ResponseType
  /-- `value`. -/
  value : String
deriving DecidableEq, Repr

/-- `AppendSingletonPutRequest`. -/
structure QueuedSingletonPut where
  /-- The machine to forward to. -/
  index : ℕ
  /-- The port to forward to. -/
  port : ℕ
  /-- `response_type`. -/
  responseType : ResponseType
  /-- The pair evicted. -/
  evicted : EvictionCallbackData
deriving DecidableEq, Repr

/-- A packet that a server sends. -/
inductive ServerPacket where
  /-- `GetResponse`, to the flow the request came from. -/
  | getResponse (request : GetRequest) (value : String)
  /-- `PutResponse`, to the configured port of a machine. -/
  | putResponse (remoteIndex : ℕ)
  /-- `SingletonPutRequest`. -/
  | singletonPutRequest (index port : ℕ) (evicted : EvictionCallbackData)
deriving DecidableEq, Repr

/-- The counters of a snapshot entry that the handlers update. -/
inductive SnapshotCounter where
  /-- `total_accesses`. -/
  | totalAccesses
  /-- `cache_hits`. -/
  | cacheHits
  /-- `cache_miss`. -/
  | cacheMiss
  /-- `disk_access`. -/
  | diskAccess
  /-- `local_disk_access`. -/
  | localDiskAccess
  /-- `remote_disk_access`. -/
  | remoteDiskAccess
  /-- `access_rate`. -/
  | accessRate
deriving DecidableEq, Repr

/-- What a handler does. -/
inductive ServerEffect where
  /-- A packet is sent. -/
  | send (packet : ServerPacket)
  /-- A counter of the snapshot entry of a key is increased. -/
  | snapshot (counter : SnapshotCounter) (key : UInt64)
  /-- `block_cache->put`: a pair is put in the database and the cache. -/
  | blockCachePut (key value : String)
  /-- `block_cache->get` on a miss: a pair is read from the database and put in the cache. -/
  | blockCacheGet (key value : String)
  /-- `put` of the cache. -/
  | cachePut (key value : String)
  /-- `put_nchance` of the cache. -/
  | putNchance (key value : String)
  /-- `put_access_rate_match` of the cache. -/
  | putAccessRateMatch (key value : String)
  /-- `put_singleton` of the cache. -/
  | putSingleton (key value : String) (singleton : Bool) (forwardCount : ℕ)
  /-- `delete_key` of the cache. -/
  | deleteKey (key : String)
  /-- `update_local_key` of the index replicas. -/
  | updateLocalKey (expectedKey key : UInt64) (value : String)
  /-- A read of a slot is posted. -/
  | readSlot (read : SlotRead)
  /-- A read of a block is posted. -/
  | readBlock (read : BlockRead)
  /-- `get_async` of the database. -/
  | getAsync (read : DiskRead)
  /-- `append_to_rdma_get_response_queue`. -/
  | appendRdmaGetResponse (response : QueuedResponse)
  /-- `append_to_rdma_block_cache_request_queue`. -/
  | appendBlockCacheRequest (response : QueuedResponse)
  /-- `append_singleton_put_request`. -/
  | appendSingletonPutRequest (put : QueuedSingletonPut)

/-! ## Answers of the environment -/

/-- The answers `fetch_from_disk` gets. -/
structure DiskAnswers where
  /-- What `block_cache->get` returns for a key that is not cached. -/
  blockCacheGet : String
  /-- What `get` of the database returns, `none` for an error. -/
  dbGet : Option String
deriving DecidableEq, Repr

/-- The answers the get handler gets. -/
structure GetAnswers where
  /-- `exists_in_cache`. -/
  existsInCache : Bool
  /-- What `block_cache->get` returns for a key that is cached. -/
  cachedValue : String
  /-- `key_value_ptr_offset` of the key in the replica of every server's index. -/
  offsets : ℕ → UInt64
  /-- `free_queue` has an op. -/
  opAvailable : Bool
  /-- What is in `read_buffer` when it is sent. -/
  readBuffer : String
  /-- The answers of the disk. -/
  disk : DiskAnswers

/-- The answers the callback of an indexed read gets. -/
structure CallbackAnswers where
  /-- What `put_nchance` evicts. -/
  evicted : Option EvictionCallbackData
  /-- What `put_access_rate_match` returns. -/
  added : Bool
  /-- The answers of the disk. -/
  disk : DiskAnswers
deriving DecidableEq, Repr

/-! ## Handlers -/

/-- `snapshot->update_*`: a panic where the key is out of bounds. -/
def updateSnapshot (config : ServerConfig) (counter : SnapshotCounter) (key : UInt64) :
    Option (List ServerEffect) :=
  if !config.snapshotEnabled then some []
  else if config.opsConfig.numKeyValuePairs < key.toNat then none
  else some [.snapshot counter key]

/-- The view of the first `VALUE_SIZE` bytes of a buffer. -/
def valueView (config : ServerConfig) (data : String) : String :=
  String.ofList (data.toList.take config.valueSize)

/-- The reads of `fetch_from_disk` and the value it has after them: with `DISK_ASYNC` none yet. -/
def readFromDisk (config : ServerConfig) (request : GetRequest) (addToCache : Bool)
    (disk : DiskAnswers) : Option (List ServerEffect × String) :=
  if config.operationsPolluteCache && addToCache then
    if config.diskAsync then some ([.getAsync ⟨request, .addToCache⟩], "")
    else some ([.blockCacheGet request.key disk.blockCacheGet], disk.blockCacheGet)
  else
    if config.diskAsync then some ([.getAsync ⟨request, .checkRange addToCache⟩], "")
    -- "Failed to get value from db" where the database has none
    else disk.dbGet.map fun value => ([], value)

/-- `fetch_from_disk`. -/
def fetchFromDisk (config : ServerConfig) (request : GetRequest) (keyIndex : UInt64)
    (addToCache : Bool) (disk : DiskAnswers) : Option (List ServerEffect) := do
  let access ← updateSnapshot config .diskAccess keyIndex
  let (reads, value) ← readFromDisk config request addToCache disk
  let response := if !config.diskAsync then [.send (.getResponse request value)] else []
  return access ++ reads ++ response

/-- What the callback of `get_async` puts in the cache. -/
def diskCachePut (config : ServerConfig) (key value : String) :
    DiskCallback → Option (List ServerEffect)
  | .addToCache => some [.cachePut key value]
  | .checkRange false => some []
  | .checkRange true =>
      (stoull key).map fun k =>
        if config.keyMin ≤ k ∧ k < config.keyMax then [.cachePut key value] else []

/-- The callback of `get_async`, with the value read. -/
def diskCallback (config : ServerConfig) (read : DiskRead) (value : String) :
    Option (List ServerEffect) :=
  (diskCachePut config read.request.key value read.callback).map fun puts =>
    puts ++ [.appendBlockCacheRequest ⟨read.request, .ok, value⟩]

/-- `read_callback` of `RDMAKeyValueCache`: the slot of the first other server whose replica has an
entry for the key is read; whether there is one. -/
def readCallback (config : ServerConfig) (request : GetRequest) (keyIndex : UInt64)
    (offsets : ℕ → UInt64) : List ServerEffect × Bool :=
  match (List.range config.numServers).find? fun i =>
      i ≠ config.baseIndex ∧ offsets i ≠ config.keyValuePtrInvalid with
  | some i => ([.readSlot ⟨request, keyIndex, i, offsets i⟩], true)
  | none => ([], false)

/-- `read_correct_node`: an op of the pool reads the block, or with `RDMA_ASYNC` off the calling
thread does. -/
def readCorrectNode (config : ServerConfig) (request : GetRequest) (keyIndex : UInt64)
    (opAvailable : Bool) : Option (List ServerEffect) :=
  (Placement.calculateNodeAndOffset config.opsConfig keyIndex.toNat).bind fun _ =>
    if config.rdmaAsync then
      -- without a free op the default-constructed one, a null buffer, is passed to `read`
      if opAvailable then some [.readBlock ⟨request⟩] else none
    else some []

/-- The remote read of the get handler and `found_in_rdma`. -/
def remoteRead (config : ServerConfig) (request : GetRequest) (keyIndex : UInt64)
    (answers : GetAnswers) : Option (List ServerEffect × Bool) :=
  if config.useCacheIndexing then some (readCallback config request keyIndex answers.offsets)
  else (readCorrectNode config request keyIndex answers.opAvailable).map fun reads => (reads, true)

/-- The RDMA part of the get handler and `found_in_rdma`. -/
def getFromRdma (config : ServerConfig) (request : GetRequest) (keyIndex : UInt64)
    (answers : GetAnswers) : Option (List ServerEffect × Bool) :=
  if !config.oneSidedRdmaEnabled then some ([], false)
  -- "Supports only ingest_block_index being enabled!"
  else if !config.ingestBlockIndex then none
  else
    (remoteRead config request keyIndex answers).map fun (reads, foundInRdma) =>
      let buffer :=
        if !config.rdmaAsync then
          [.send (.getResponse request (valueView config answers.readBuffer))]
        else []
      (reads ++ buffer, foundInRdma)

/-- The end of the get handler on a key that is not cached. -/
def getFromLocalDisk (config : ServerConfig) (request : GetRequest) (keyIndex : UInt64)
    (disk : DiskAnswers) : Option (List ServerEffect) := do
  let localAccess ← updateSnapshot config .localDiskAccess keyIndex
  let fetch ← fetchFromDisk config request keyIndex true disk
  return localAccess ++ fetch

/-- The get handler on a key that is not cached. -/
def getMiss (config : ServerConfig) (request : GetRequest) (keyIndex : UInt64)
    (answers : GetAnswers) : Option (List ServerEffect) := do
  let miss ← updateSnapshot config .cacheMiss keyIndex
  let (rdma, foundInRdma) ← getFromRdma config request keyIndex answers
  let fetch ← bif foundInRdma then some []
    else getFromLocalDisk config request keyIndex answers.disk
  return miss ++ rdma ++ fetch

/-- The get handler on a key that is cached. -/
def getHit (config : ServerConfig) (request : GetRequest) (keyIndex : UInt64)
    (answers : GetAnswers) : Option (List ServerEffect) :=
  (updateSnapshot config .cacheHits keyIndex).map fun hit =>
    hit ++ [.send (.getResponse request answers.cachedValue)]

/-- The get handler. -/
def getHandler (config : ServerConfig) (request : GetRequest) (answers : GetAnswers) :
    Option (List ServerEffect) := do
  let key ← stoi request.key
  let keyIndex := UInt64.ofInt key
  let outcome ← bif answers.existsInCache then getHit config request keyIndex answers
    else getMiss config request keyIndex answers
  let total ← updateSnapshot config .totalAccesses keyIndex
  return outcome ++ total

/-- The machine that `put_nchance` evictions are forwarded to. -/
def remoteIndexToForward (config : ServerConfig) : ℕ :=
  (config.baseIndex + 1) % config.numServers + config.serverStartIndex

/-- The part of the read callback for the `nchance` policy. -/
def nchanceEffects (config : ServerConfig) (key value : String)
    (evicted : Option EvictionCallbackData) : List ServerEffect :=
  if config.policyType = .nchance then
    .putNchance key value :: (evicted.map fun data => .appendSingletonPutRequest
      ⟨remoteIndexToForward config, config.port + config.threadIndex, .ok, data⟩).toList
  else []

/-- The part of the read callback for the access-rate policies. -/
def accessRateEffects (config : ServerConfig) (keyIndex : UInt64) (value : String)
    (added : Bool) : Option (List ServerEffect) :=
  if config.policyType = .accessRate ∨ config.policyType = .accessRateDynamic then
    (if added then updateSnapshot config .accessRate keyIndex else some []).map fun count =>
      .putAccessRateMatch (toString keyIndex.toNat) value :: count
  else some []

/-- The read callback where the slot holds the expected key. -/
def slotMatch (config : ServerConfig) (read : SlotRead) (kv : RDMACacheIndexKeyValue)
    (answers : CallbackAnswers) : Option (List ServerEffect) :=
  let value := valueView config kv.data
  let nchance := nchanceEffects config (toString kv.keyIndex.toNat) value answers.evicted
  (accessRateEffects config kv.keyIndex value answers.added).map fun accessRate =>
    nchance ++ accessRate ++ [.appendRdmaGetResponse ⟨read.request, .ok, value⟩]

/-- The read callback where the slot holds another key. -/
def slotMismatch (config : ServerConfig) (read : SlotRead) (kv : RDMACacheIndexKeyValue)
    (answers : CallbackAnswers) : Option (List ServerEffect) := do
  let remoteAccess ← updateSnapshot config .remoteDiskAccess read.expectedKey
  let fetch ← fetchFromDisk config read.request read.expectedKey false answers.disk
  let update := .updateLocalKey read.expectedKey kv.keyIndex (valueView config kv.data)
  return remoteAccess ++ update :: fetch

/-- The callback of an indexed read, with the slot's content. -/
def slotCallback (config : ServerConfig) (read : SlotRead) (kv : RDMACacheIndexKeyValue)
    (answers : CallbackAnswers) : Option (List ServerEffect) :=
  if kv.keyIndex = read.expectedKey then slotMatch config read kv answers
  else slotMismatch config read kv answers

end TwigKV.Server
