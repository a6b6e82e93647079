import TwigKV.ClientSync.GetReplies
import TwigKV.Cluster.ValueIntegrity

/-! # Clients and servers together

The clients, their connections and the cluster of servers as one system. A client's request arrives
at a thread of its server, whose get handler runs with it; what the threads of the servers do from
there on are the steps of the cluster, and the responses they send go onto the connections to the
clients. The network's own account of what every server has still to answer is a ghost here: it is
kept beside the threads and numbers of the requests it stands for.

Whoever sends put requests is not part of the system: `execute_operations` only sends gets. A put
may arrive at any time.

All servers run with a cache index and with asynchronous RDMA and disk reads. Where values matter,
they have `VALUE_SIZE` bytes and none of them is NUL, and keys are those of the dataset. -/

namespace TwigKV.Deployment

open ClientSync Server Cluster

/-- Where the machines of a deployment are. -/
structure Layout where
  /-- The number of client machines. -/
  numClients : ℕ
  /-- The machine index of the first server. -/
  firstServer : ℕ
  /-- The machine that a client runs on, as the servers see it. -/
  machineIndex : ℕ → ℕ
  /-- The port it sends from. -/
  port : ℕ → ℕ
  /-- The client with a machine index and a port. -/
  client : ℕ → ℕ → ℕ
  /-- Two clients do not share both. -/
  client_eq : ∀ a, client (machineIndex a) (port a) = a

/-- The clients, the connections and the servers. -/
structure DeploymentState where
  /-- The clients and their connections. -/
  network : NetworkState
  /-- The servers. -/
  cluster : ClusterState
  /-- Ghost: threads and numbers of the requests that every server has received and not answered. -/
  openRequests : ℕ → List (ℕ × ℕ)
  /-- Ghost: the keys of the requests sent. -/
  asked : List String

/-- Nothing has been sent and the dataset has been loaded; `ops` are the operations of every
client. -/
def DeploymentState.initial {c : ClusterConfig} (layout : Layout) (dataset : Dataset c)
    (ops : ℕ → List (String × ℕ)) : DeploymentState where
  network := .initial (clientScript layout.numClients ops)
  cluster := .initial dataset
  openRequests := fun _ => []
  asked := []

/-- What happens next. -/
inductive DeploymentLabel where
  /-- A client acts or a connection delivers to a client. -/
  | client (l : NetworkLabel)
  /-- Thread `t` of server `s` receives the next request of client `a`. -/
  | receiveGet (s t a : ℕ) (answers : GetAnswers)
  /-- Another step of thread `t` of server `s`. -/
  | server (s t : ℕ) (label : ServerLabel)
  /-- A slot of server `s` gets a new content. -/
  | writeSlot (s : ℕ) (offset : UInt64) (kv : RDMACacheIndexKeyValue)

/-- The step of the network is one of its abstract servers. -/
def atServer : NetworkLabel → Bool
  | .serverReceive _ _ | .answer _ _ _ => true
  | _ => false

/-- The step receives a get request. -/
def receivesGet : ServerLabel → Bool
  | .receiveGet _ _ _ _ => true
  | _ => false

/-- The key of the request that a step of the network sends, if it sends one. -/
def askedBy (network : NetworkState) : NetworkLabel → List String
  | .start a =>
      match network.pc a, network.script a with
      | .ready, .get key _ :: _ => [key]
      | _, _ => []
  | _ => []

/-- A packet sent by thread `t` of server `s`: a response goes to the client it is addressed to. -/
def sendToClient (layout : Layout) (s t : ℕ) (st : DeploymentState) :
    ServerPacket → DeploymentState
  | .getResponse request value =>
      let server := layout.firstServer + s
      let a := layout.client request.remoteIndex request.remotePort
      let i := (st.openRequests s).idxOf (t, request.id)
      match dequeueAt (st.network.unanswered server) i with
      | some ((_, number, _), rest) =>
          { st with
            network := answerRequest st.network server a number value rest
            openRequests :=
              Function.update st.openRequests s ((st.openRequests s).erase (t, request.id)) }
      -- a response to no open request would have a new number
      | none =>
          { st with
            network := answerRequest st.network server a st.network.nextRequest value
              (st.network.unanswered server) }
  -- to another server
  | .putResponse _ | .singletonPutRequest _ _ _ => st

/-- A step of thread `t` of server `s`, with what it sends. -/
def serverActs (layout : Layout) (c : ClusterConfig) (st : DeploymentState) (s t : ℕ)
    (label : ServerLabel) : Option DeploymentState :=
  (clusterStep c st.cluster (.server s t label)).map fun cluster =>
    ((cluster.servers s t).sent.drop (st.cluster.servers s t).sent.length).foldl
      (sendToClient layout s t) { st with cluster := cluster }

/-- The next request of client `a` reaches thread `t` of server `s`. -/
def reachServer (layout : Layout) (st : DeploymentState) (s t a request : ℕ) (key : String)
    (rest : List (ℕ × String)) : DeploymentState :=
  { st with
    network := receiveRequest st.network (layout.firstServer + s) a request key rest
    openRequests := Function.update st.openRequests s
      (st.openRequests s ++ [(t, (st.cluster.servers s t).received.length)]) }

/-- One step: `none` where the label is not enabled or the program stops. -/
def deploymentStep (layout : Layout) (c : ClusterConfig) (st : DeploymentState) :
    DeploymentLabel → Option DeploymentState
  | .client l =>
      if atServer l then none
      else (networkStep layout.numClients st.network l).map fun network =>
        { st with network := network, asked := st.asked ++ askedBy st.network l }
  | .receiveGet s t a answers =>
      match st.network.requests a (layout.firstServer + s) with
      | (request, key) :: rest =>
          serverActs layout c (reachServer layout st s t a request key rest) s t
            (.receiveGet (layout.machineIndex a) (layout.port a) key answers)
      | [] => none
  | .server s t label => if receivesGet label then none else serverActs layout c st s t label
  | .writeSlot s offset kv =>
      (clusterStep c st.cluster (.writeSlot s offset kv)).map fun cluster =>
        { st with cluster := cluster }

/-- What the environment does in a step. Synchronisation requests come as in the network model, the
answers of caches, databases and slots as in the cluster's, and clients put only values without NUL
bytes. -/
def DeploymentEnvironment (layout : Layout) (c : ClusterConfig) (st : DeploymentState) :
    DeploymentLabel → Prop
  | .client l => SyncsAfterReplies layout.numClients st.network l
  | .receiveGet s _ a answers =>
      ∀ request key rest, st.network.requests a (layout.firstServer + s) = (request, key) :: rest →
        answers.existsInCache = true → (cStr key, answers.cachedValue) ∈ st.cluster.cache s
  | .server s t label => CStringEnvironment c st.cluster (.server s t label)
  | .writeSlot s offset kv => CStringEnvironment c st.cluster (.writeSlot s offset kv)

end TwigKV.Deployment
