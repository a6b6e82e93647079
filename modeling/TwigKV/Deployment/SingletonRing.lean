import TwigKV.Deployment.ClientView
import TwigKV.Foundations.TableSums

/-! # The ring of forwarded singletons

With the policy `nchance` a pair that `put_nchance` evicts is queued, sent to the next server of the
ring and put into its cache with `put_singleton`. The servers and the forwards between them are one
system here: a forward is delivered to the thread that listens on the port it was sent to, forwards
may overtake each other, and any other step of a server may happen in between. All servers have one
base port (`Ring.port_eq`): a thread sends to the port of its own server plus its number.

What every cache has evicted and what every cache has been given are kept as ghosts. -/

namespace TwigKV.Deployment

open Server Cluster

/-! ## The system -/

/-- The servers of a ring: every thread knows how many they are, which of them it is on and the base
port, which is the same everywhere. -/
structure Ring (c : ClusterConfig) where
  /-- `num_servers`. -/
  numServers : ℕ
  /-- There are others to forward to. -/
  one_lt_numServers : 1 < numServers
  /-- The number of threads of every server. -/
  numThreads : ℕ
  /-- `server_start_index`. -/
  firstServer : ℕ
  /-- The base port of every server. -/
  port : ℕ
  /-- Every thread has the number of servers. -/
  numServers_eq : ∀ s t, (c.serverConfig s t).numServers = numServers
  /-- It has the index of the first one. -/
  serverStartIndex_eq : ∀ s t, (c.serverConfig s t).serverStartIndex = firstServer
  /-- It has its server. -/
  baseIndex_eq : ∀ s t, (c.serverConfig s t).baseIndex = s
  /-- It has the base port. -/
  port_eq : ∀ s t, (c.serverConfig s t).port = port
  /-- It has its number. -/
  threadIndex_eq : ∀ s t, (c.serverConfig s t).threadIndex = t

/-- The server behind a server. -/
def Ring.next {c : ClusterConfig} (ring : Ring c) (s : ℕ) : ℕ := (s + 1) % ring.numServers

/-- A forward on its way: a packet with a `SingletonPutRequest`, and where it was sent to. -/
structure Forward where
  /-- The machine. -/
  index : ℕ
  /-- The port. -/
  port : ℕ
  /-- The pair. -/
  evicted : EvictionCallbackData
deriving DecidableEq, Repr

/-- The forward that an effect sends. -/
def forwardOf : ServerEffect → Option Forward
  | .send (.singletonPutRequest index port evicted) => some ⟨index, port, evicted⟩
  | _ => none

/-- The pair that an effect gives to the cache with `put_singleton`. -/
def adoptionOf : ServerEffect → Option EvictionCallbackData
  | .putSingleton key value singleton forwardCount => some ⟨key, value, singleton, forwardCount⟩
  | _ => none

/-- The pair that `put_nchance` evicts in a step: it is called by the callback of an indexed read,
where the slot holds the key asked for and the policy is `nchance`. -/
def evictedBy (config : ServerConfig) (st : ServerState) : ServerLabel → List EvictionCallbackData
  | .slotReadCompleted i kv answers =>
      match dequeueAt st.pendingReads i with
      | some (read, _) =>
          if kv.keyIndex = read.expectedKey ∧ config.policyType = .nchance then
            answers.evicted.toList
          else []
      | none => []
  | _ => []

/-- The step receives a forward. -/
def receivesForward : ServerLabel → Bool
  | .receiveSingletonPut _ _ _ _ => true
  | _ => false

/-- The servers and the forwards between them. -/
structure RingState where
  /-- The servers. -/
  cluster : ClusterState
  /-- The forwards on their way. -/
  inFlight : List Forward
  /-- Ghost: what `put_nchance` has evicted for every thread of every server. -/
  evicted : ℕ → ℕ → List EvictionCallbackData
  /-- Ghost: what every thread of every server has given to `put_singleton`. -/
  adopted : ℕ → ℕ → List EvictionCallbackData

/-- The dataset has been loaded and nothing has been received. -/
def RingState.initial {c : ClusterConfig} (dataset : Dataset c) : RingState where
  cluster := .initial dataset
  inFlight := []
  evicted := fun _ _ => []
  adopted := fun _ _ => []

/-- What happens next. -/
inductive RingLabel where
  /-- A step of thread `t` of server `s` that receives no forward. -/
  | server (s t : ℕ) (label : ServerLabel)
  /-- Thread `t` of server `s` receives the forward at position `i`. -/
  | deliver (s t i : ℕ)
  /-- A slot of server `s` gets a new content. -/
  | writeSlot (s : ℕ) (offset : UInt64) (kv : RDMACacheIndexKeyValue)

/-- The message that a forward is received as. -/
def Forward.message (forward : Forward) : ServerLabel :=
  .receiveSingletonPut forward.evicted.key forward.evicted.value forward.evicted.singleton
    forward.evicted.forwardCount

section Steps

variable (c : ClusterConfig)

/-- A step of thread `t` of server `s`, with what it sends, evicts and is given. -/
def threadActs (st : RingState) (s t : ℕ) (label : ServerLabel) : Option RingState :=
  (serverMove (c.serverConfig s t) (st.cluster.servers s t) label).bind fun (_, effects) =>
    (clusterStep c st.cluster (.server s t label)).map fun cluster =>
      { cluster := cluster
        inFlight := st.inFlight ++ effects.filterMap forwardOf
        evicted := update₂ st.evicted s t
          (st.evicted s t ++ evictedBy (c.serverConfig s t) (st.cluster.servers s t) label)
        adopted := update₂ st.adopted s t (st.adopted s t ++ effects.filterMap adoptionOf) }

variable {c} (ring : Ring c)

/-- The forward was sent to the port on which thread `t` of server `s` listens. -/
def Ring.Reaches (s t : ℕ) (forward : Forward) : Prop :=
  forward.index = ring.firstServer + s ∧ forward.port = ring.port + t

/-- Where a forward was sent to can be computed. -/
instance (s t : ℕ) : DecidablePred (ring.Reaches s t) :=
  fun _ => inferInstanceAs (Decidable (_ = _ ∧ _ = _))

/-- The threads that there are. -/
def Ring.IsThread (s t : ℕ) : Prop := s < ring.numServers ∧ t < ring.numThreads

/-- Which threads there are can be computed. -/
instance (s t : ℕ) : Decidable (ring.IsThread s t) := inferInstanceAs (Decidable (_ ∧ _))

/-- One step: `none` where the label is not enabled or the program stops. -/
def ringStep (st : RingState) : RingLabel → Option RingState
  | .server s t label =>
      if ring.IsThread s t ∧ receivesForward label = false then threadActs c st s t label else none
  | .deliver s t i =>
      (dequeueAt st.inFlight i).bind fun (forward, rest) =>
        if ring.IsThread s t ∧ ring.Reaches s t forward then
          threadActs c { st with inFlight := rest } s t forward.message
        else none
  | .writeSlot s offset kv =>
      (clusterStep c st.cluster (.writeSlot s offset kv)).map fun cluster =>
        { st with cluster := cluster }

/-- What the environment does in a step: as in the cluster, except that the forwards that are
received are those of the ring, and clients put only values without NUL bytes. -/
def RingEnvironment (c : ClusterConfig) (st : RingState) : RingLabel → Prop
  | .server s t label => CStringEnvironment c st.cluster (.server s t label)
  | .deliver _ _ _ => True
  | .writeSlot s offset kv => CStringEnvironment c st.cluster (.writeSlot s offset kv)

end Steps

/-! ## A run -/

/-- Two servers with one thread each and the policy `nchance`. -/
def nchanceCluster : ClusterConfig where
  serverConfig := fun s t =>
    { indexingConfig true with
      policyType := .nchance, numServers := 2, baseIndex := s, threadIndex := t }
  asyncIndexing := fun _ _ => ⟨rfl, rfl, rfl, rfl⟩
  valueSize := 1
  valueSize_eq := fun _ _ => rfl
  numKeyValuePairs := 3
  keyInvalid := -1
  keyInvalid_gt := indexingCluster.keyInvalid_gt

/-- They are a ring. -/
def twoServers : Ring nchanceCluster where
  numServers := 2
  one_lt_numServers := by decide
  numThreads := 1
  firstServer := 3
  port := 8000
  numServers_eq := fun _ _ => rfl
  serverStartIndex_eq := fun _ _ => rfl
  baseIndex_eq := fun _ _ => rfl
  port_eq := fun _ _ => rfl
  threadIndex_eq := fun _ _ => rfl

/-- One stored pair. -/
def oneStored : Dataset nchanceCluster where
  pairs := [("1", "A")]
  isPair := List.forall_mem_singleton.mpr ⟨⟨1, by decide, by decide, rfl⟩, rfl⟩

/-- The first server reads a slot of the second one; its cache evicts the pair again, which is
forwarded. -/
def evictionRun : List RingLabel :=
  [.server 0 0 (.receiveGet 5 9000 "1" ⟨false, "", fun _ => 0, true, "", ⟨"", none⟩⟩),
    .writeSlot 1 0 ⟨1, "A"⟩,
    .server 0 0 (.slotReadCompleted 0 ⟨1, "A"⟩ ⟨some ⟨"1", "A", true, 0⟩, false, ⟨"", none⟩⟩),
    .server 0 0 (.sendSingletonPutRequest 0),
    .deliver 1 0 0]

end TwigKV.Deployment
