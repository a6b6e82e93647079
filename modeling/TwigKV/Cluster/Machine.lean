import TwigKV.Foundations.DoubleUpdate
import TwigKV.Server.ValueFlow

/-! # A cluster of servers in cache-index mode

Every server machine has a cache, a database and a key-value storage, whose slots the other machines
read, and any number of server threads. A step is one of a server thread, or the cache library
reusing a slot. What the environment may answer is `EnvironmentOk`: caches and databases return
pairs that were put into them, a read returns a content that its slot has held, the index replicas
hold anything. A message to another server may arrive at any of its threads, at any time.

Histories are kept as ghosts: the pairs put in every cache and database, the contents of every slot
and the pairs ever stored. -/

namespace TwigKV.Cluster

open Server

/-- The servers of a cluster in cache-index mode with asynchronous reads. -/
structure ClusterConfig where
  /-- The configuration of every thread of every machine. -/
  serverConfig : ℕ → ℕ → ServerConfig
  /-- The mode. -/
  asyncIndexing : ∀ s t, AsyncIndexing (serverConfig s t)
  /-- `VALUE_SIZE`. -/
  valueSize : ℕ
  /-- It is the same everywhere. -/
  valueSize_eq : ∀ s t, (serverConfig s t).valueSize = valueSize
  /-- `NUM_KEY_VALUE_PAIRS`. -/
  numKeyValuePairs : ℕ
  /-- `key_index` of a slot that holds no pair. -/
  keyInvalid : UInt64
  /-- It is not a key of the dataset. -/
  keyInvalid_gt : numKeyValuePairs < keyInvalid.toNat

/-- A key of the dataset as a text. -/
def IsKey (c : ClusterConfig) (key : String) : Prop :=
  ∃ k : ℕ, 1 ≤ k ∧ k ≤ c.numKeyValuePairs ∧ key = toString k

/-- A key of the dataset and a value of `VALUE_SIZE` bytes. -/
structure IsPair (c : ClusterConfig) (pair : String × String) : Prop where
  /-- The key. -/
  key : IsKey c pair.1
  /-- The size of the value. -/
  size : pair.2.length = c.valueSize

/-- The pairs stored initially. -/
structure Dataset (c : ClusterConfig) where
  /-- The pairs. -/
  pairs : List (String × String)
  /-- Each of them is a pair of the dataset. -/
  isPair : ∀ pair ∈ pairs, IsPair c pair

/-- The server threads and the machines' memory. -/
structure ClusterState where
  /-- The threads of every machine. -/
  servers : ℕ → ℕ → ServerState
  /-- Ghost: the pairs put in the cache of every machine. -/
  cache : ℕ → List (String × String)
  /-- Ghost: the pairs put in the database of every machine. -/
  disk : ℕ → List (String × String)
  /-- Ghost: the contents that the slots of every machine have held. -/
  slots : ℕ → UInt64 → List RDMACacheIndexKeyValue
  /-- Ghost: the pairs ever stored, initially or by a put. -/
  stored : List (String × String)

/-- The value was stored under the key at some time. -/
def ClusterState.Stored (st : ClusterState) (key value : String) : Prop := (key, value) ∈ st.stored

/-- The dataset has been loaded and nothing has been received. -/
def ClusterState.initial {c : ClusterConfig} (dataset : Dataset c) : ClusterState where
  servers := fun _ _ => .initial
  cache := fun _ => dataset.pairs
  disk := fun _ => dataset.pairs
  slots := fun _ _ => []
  stored := dataset.pairs

/-- What happens next in the cluster. -/
inductive ClusterLabel where
  /-- A step of thread `t` of machine `s`. -/
  | server (s t : ℕ) (label : ServerLabel)
  /-- A slot of machine `s` gets a new content. -/
  | writeSlot (s : ℕ) (offset : UInt64) (kv : RDMACacheIndexKeyValue)

/-- A pair is put in the cache of machine `s`. -/
def putInCache (st : ClusterState) (s : ℕ) (key value : String) : ClusterState :=
  { st with cache := Function.update st.cache s (st.cache s ++ [(key, value)]) }

/-- An effect on the cache and the database of machine `s`. -/
def applyToStores (s : ℕ) (st : ClusterState) : ServerEffect → ClusterState
  | .blockCachePut key value =>
      { putInCache st s key value with
        disk := Function.update st.disk s (st.disk s ++ [(key, value)]) }
  | .blockCacheGet key value | .cachePut key value | .putNchance key value
  | .putAccessRateMatch key value | .putSingleton key value _ _ => putInCache st s key value
  | .send _ | .snapshot _ _ | .deleteKey _ | .updateLocalKey _ _ _ | .readSlot _ | .readBlock _
  | .getAsync _ | .appendRdmaGetResponse _ | .appendBlockCacheRequest _
  | .appendSingletonPutRequest _ => st

/-- A put request stores its value under its key. -/
def recordPut (st : ClusterState) : ServerLabel → ClusterState
  | .receivePut _ key value => { st with stored := st.stored ++ [(cStr key, cStr value)] }
  | _ => st

/-- One step. -/
def clusterStep (c : ClusterConfig) (st : ClusterState) : ClusterLabel → Option ClusterState
  | .server s t label =>
      (serverMove (c.serverConfig s t) (st.servers s t) label).map fun (server, effects) =>
        effects.foldl (applyToStores s)
          { recordPut st label with
            servers := update₂ st.servers s t (applyEffects server effects) }
  | .writeSlot s offset kv =>
      some { st with slots := update₂ st.slots s offset (kv :: st.slots s offset) }

/-- The content of a slot: invalid, or a key and a value stored under it, followed by anything. -/
def HoldsStored (c : ClusterConfig) (st : ClusterState) (kv : RDMACacheIndexKeyValue) : Prop :=
  kv.keyIndex = c.keyInvalid ∨ ∃ (k : ℕ) (value padding : String),
    (toString k, value) ∈ st.stored ∧ kv.keyIndex = UInt64.ofNat k ∧ kv.data = value ++ padding

/-- What the environment does in a step. -/
def EnvironmentOk (c : ClusterConfig) (st : ClusterState) : ClusterLabel → Prop
  -- gets are for keys of the dataset; the cache returns a pair put into it
  | .server s _ (.receiveGet _ _ key answers) =>
      IsKey c (cStr key) ∧
        (answers.existsInCache = true → (cStr key, answers.cachedValue) ∈ st.cache s)
  -- values have `VALUE_SIZE` bytes
  | .server _ _ (.receivePut _ key value) => IsPair c (cStr key, value)
  -- a singleton put request that a server has sent
  | .server _ _ (.receiveSingletonPut key value singleton forwardCount) =>
      ∃ s t index port, .singletonPutRequest index port ⟨key, value, singleton, forwardCount⟩ ∈
        (st.servers s t).sent
  -- a read returns a content of its slot; the cache evicts a pair put into it, perhaps just now
  | .server s t (.slotReadCompleted i kv answers) =>
      (∀ read rest, dequeueAt (st.servers s t).pendingReads i = some (read, rest) →
        kv ∈ st.slots read.remoteIndex read.offset) ∧
      ∀ data, answers.evicted = some data → (data.key, data.value) ∈ st.cache s ∨
        (data.key, data.value) =
          (toString kv.keyIndex.toNat, valueView (c.serverConfig s t) kv.data)
  -- the database returns a pair put into it
  | .server s t (.diskReadCompleted i value) =>
      ∀ read rest, dequeueAt (st.servers s t).pendingDisk i = some (read, rest) →
        (read.request.key, value) ∈ st.disk s
  | .server _ _ _ => True
  | .writeSlot _ _ kv => HoldsStored c st kv

/-- A put request or a singleton put request that is received has a value without a NUL byte: the
handlers read the values of both as C strings. -/
def ReceivesCString : ClusterLabel → Prop
  | .server _ _ (.receivePut _ _ value) => NulFree value
  | .server _ _ (.receiveSingletonPut _ value _ _) => NulFree value
  | _ => True

/-- The value of a put request contains no NUL byte. -/
def PutsCString : ClusterLabel → Prop
  | .server _ _ (.receivePut _ _ value) => NulFree value
  | _ => True

/-- The environment, when clients put only values without NUL bytes. -/
def CStringEnvironment (c : ClusterConfig) (st : ClusterState) (label : ClusterLabel) : Prop :=
  EnvironmentOk c st label ∧ PutsCString label

end TwigKV.Cluster
