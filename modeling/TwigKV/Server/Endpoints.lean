import TwigKV.Foundations.LastWrite
import TwigKV.Server.Machine

/-! # The connection table of a server thread (`Connection`, `connection.h` and `connection.cpp`)

A server thread sends every packet through `machine_index_to_connection`, a table from machine index
and port to flow. Three functions record in it: `listen` and `connect_to_remote_machine` when the
thread starts, and `receive`, which records for every packet the flow back to where it came from.
The senders look up a key that they compute themselves, and a lookup inserts an empty flow where
there is none.

* **`Channel`** — Machnet, as a parameter: the flows it gives to connections, and the flows on
  which packets arrive;
* **`EndpointState`** — the server of `serverMove` with its table, and what has been sent on which
  flow;
* **`endpointStep`** — a packet is received, or another step of the server is taken, and the
  packets of its effects are sent.

A port is a natural number, an address the number that `inet_addr` makes of it. `machnet_send` may
fail on a flow that it does not know, which is a panic; here the run goes on. -/

namespace TwigKV.Server

/-! ## Flows and machines -/

/-- `MachnetFlow`. -/
structure MachnetFlow where
  /-- `src_ip`. -/
  srcIp : UInt32
  /-- `dst_ip`. -/
  dstIp : UInt32
  /-- `src_port`. -/
  srcPort : ℕ
  /-- `dst_port`. -/
  dstPort : ℕ
deriving DecidableEq, Repr

/-- `ConnectionData{}`, which is also what a lookup inserts. -/
def MachnetFlow.empty : MachnetFlow := ⟨0, 0, 0, 0⟩

/-- `tx_flow`: the flow back. -/
def MachnetFlow.reverse (flow : MachnetFlow) : MachnetFlow :=
  ⟨flow.dstIp, flow.srcIp, flow.dstPort, flow.srcPort⟩

/-- The way back of the way back. -/
@[simp] theorem MachnetFlow.reverse_reverse (flow : MachnetFlow) : flow.reverse.reverse = flow :=
  rfl

/-- `RemoteMachineConfig`. -/
structure RemoteMachineConfig where
  /-- The address of `ip`. -/
  ip : UInt32
  /-- `port`, the base port. -/
  port : ℕ
  /-- `server`. -/
  server : Bool
deriving DecidableEq, Repr

/-- What a server thread's `Connection` is made with. -/
structure ConnectionConfig where
  /-- What the handlers read of it. -/
  server : ServerConfig
  /-- `remote_machine_configs`. -/
  remoteMachineConfigs : List RemoteMachineConfig
  /-- `machine_index`. -/
  machineIndex : ℕ
  /-- The port of the handlers is the one configured for this machine. -/
  port_eq : remoteMachineConfigs[machineIndex]?.map RemoteMachineConfig.port = some server.port

namespace ConnectionConfig

variable (config : ConnectionConfig)

/-- `remote_machine_configs[i].port`; no index outside is used. -/
def basePort (i : ℕ) : ℕ :=
  (config.remoteMachineConfigs[i]?.map RemoteMachineConfig.port).getD 0

/-- The port of a machine for the threads with the index of this one. -/
def threadPort (i : ℕ) : ℕ :=
  config.basePort i + config.server.threadIndex

/-- The machines that the constructor of `Server` connects to. -/
def otherServer (i : ℕ) : Bool :=
  i ≠ config.machineIndex && config.remoteMachineConfigs[i]?.any RemoteMachineConfig.server

/-- The writes that fill `dst_ip_to_machine_index`. -/
def machineIndexWrites : List (UInt32 × ℕ) :=
  config.remoteMachineConfigs.zipIdx.map fun (machine, i) => (machine.ip, i)

/-- `dst_ip_to_machine_index`: 0 for an address it does not have. -/
def dstIpToMachineIndex : UInt32 → ℕ :=
  applyWrites (fun _ => 0) config.machineIndexWrites

end ConnectionConfig

/-! ## Machnet -/

/-- A Machnet channel, as a server thread sees it. -/
structure Channel (config : ConnectionConfig) where
  /-- The flow of the connection to a machine that `machnet_connect` gives. -/
  connect : ℕ → MachnetFlow
  /-- Packets arrive on the flow. -/
  arrives : MachnetFlow → Bool
  /-- A connection leads where it was asked for. -/
  connect_dst : ∀ i machine, config.otherServer i = true →
    config.remoteMachineConfigs[i]? = some machine →
      (connect i).dstIp = machine.ip ∧ (connect i).dstPort = config.threadPort i
  /-- A sender has bound its own configured address: `Connection` passes it to `machnet_connect`. -/
  configured : ∀ flow, arrives flow = true →
    ∃ machine ∈ config.remoteMachineConfigs, machine.ip = flow.srcIp
  /-- And a port, which is not 0. -/
  srcPort_ne_zero : ∀ flow, arrives flow = true → flow.srcPort ≠ 0
  /-- Packets from one remote endpoint arrive on one flow. -/
  arrives_unique : ∀ flow flow', arrives flow = true → arrives flow' = true →
    flow.srcIp = flow'.srcIp → flow.srcPort = flow'.srcPort → flow = flow'
  /-- Packets from the endpoint of a connection arrive on that connection. -/
  connect_unique : ∀ flow i, arrives flow = true → config.otherServer i = true →
    flow.srcIp = (connect i).dstIp → flow.srcPort = (connect i).dstPort →
      flow = (connect i).reverse

/-! ## The table -/

/-- A packet that has been sent. -/
structure SendRecord where
  /-- The packet. -/
  packet : ServerPacket
  /-- The key looked up. -/
  key : ℕ × ℕ
  /-- The key had been recorded. -/
  recorded : Bool
  /-- The flow it was sent on. -/
  flow : MachnetFlow
  /-- The flow it belongs on: the way back of its request, or the connection to the next server;
  `none` where there is no such flow. -/
  expected : Option MachnetFlow
deriving DecidableEq, Repr

/-- The packet went to the right endpoint, through a key that had been recorded. -/
def SendRecord.Right (send : SendRecord) : Prop :=
  send.recorded = true ∧ send.expected = some send.flow

/-- Whether a packet went to the right endpoint can be computed. -/
instance (send : SendRecord) : Decidable send.Right :=
  inferInstanceAs (Decidable (_ ∧ _))

/-- `machine_index_to_connection`. -/
structure ConnectionTable where
  /-- The entries. -/
  machineIndexToConnection : ℕ × ℕ → Option MachnetFlow
  /-- Ghost: the keys that have been recorded. -/
  recorded : List (ℕ × ℕ)

namespace ConnectionTable

/-- A table in which nothing has been recorded. -/
def nothingRecorded : ConnectionTable := ⟨fun _ => none, []⟩

/-- A flow is recorded. -/
def recordFlow (table : ConnectionTable) (key : ℕ × ℕ) (flow : MachnetFlow) :
    ConnectionTable where
  machineIndexToConnection := Function.update table.machineIndexToConnection key (some flow)
  recorded := key :: table.recorded

/-- The flow that a lookup finds or inserts. -/
def flowAt (table : ConnectionTable) (key : ℕ × ℕ) : MachnetFlow :=
  (table.machineIndexToConnection key).getD .empty

/-- The table after a lookup. -/
def afterLookup (table : ConnectionTable) (key : ℕ × ℕ) : ConnectionTable :=
  { table with
    machineIndexToConnection :=
      Function.update table.machineIndexToConnection key (some (table.flowAt key)) }

/-- What a packet sent through the table is recorded as. -/
def sendRecord (table : ConnectionTable) (packet : ServerPacket) (key : ℕ × ℕ)
    (expected : Option MachnetFlow) : SendRecord :=
  ⟨packet, key, decide (key ∈ table.recorded), table.flowAt key, expected⟩

/-- `listen`. -/
def listen (config : ConnectionConfig) (table : ConnectionTable) : ConnectionTable :=
  table.recordFlow (config.machineIndex, config.server.port + config.server.threadIndex) .empty

variable {config : ConnectionConfig}

/-- `connect_to_remote_machine`. -/
def connectToRemoteMachine (channel : Channel config) (table : ConnectionTable) (i : ℕ) :
    ConnectionTable :=
  table.recordFlow (i, config.threadPort i) (channel.connect i)

/-- The constructor of `Server`. -/
def connected (channel : Channel config) : ConnectionTable :=
  ((List.range config.remoteMachineConfigs.length).filter config.otherServer).foldl
    (connectToRemoteMachine channel) (nothingRecorded.listen config)

/-- What `receive` records for a packet. -/
def receive (config : ConnectionConfig) (table : ConnectionTable) (rxFlow : MachnetFlow) :
    ConnectionTable :=
  table.recordFlow (config.dstIpToMachineIndex rxFlow.srcIp, rxFlow.srcPort) rxFlow.reverse

end ConnectionTable

/-- A server thread with its connection table. -/
structure EndpointState where
  /-- What it has under way. -/
  server : ServerState
  /-- The table. -/
  table : ConnectionTable
  /-- Ghost: the flows on which packets have arrived. -/
  arrived : List MachnetFlow
  /-- Ghost: the flows of the get requests, by their numbers. -/
  requestFlows : List MachnetFlow
  /-- Ghost: the packets sent. -/
  sends : List SendRecord

/-- A server thread that has received nothing. -/
def EndpointState.initial {config : ConnectionConfig} (channel : Channel config) :
    EndpointState where
  server := .initial
  table := .connected channel
  arrived := []
  requestFlows := []
  sends := []

/-- `send`. -/
def EndpointState.send (st : EndpointState) (packet : ServerPacket) (key : ℕ × ℕ)
    (expected : Option MachnetFlow) : EndpointState :=
  { st with
    table := st.table.afterLookup key
    sends := st.sends ++ [st.table.sendRecord packet key expected] }

/-! ## Steps -/

/-- What a packet asks for. -/
inductive Message where
  /-- `GetRequest`. -/
  | get (key : String) (answers : GetAnswers)
  /-- `PutRequest`. -/
  | put (key value : String)
  /-- `SingletonPutRequest`. -/
  | singletonPut (key value : String) (singleton : Bool) (forwardCount : ℕ)
  /-- `DeleteRequest`. -/
  | delete (key : String)

/-- The step of the server, with the index and the port `receive` passes to the handler. -/
def Message.label (remoteIndex port : ℕ) : Message → ServerLabel
  | .get key answers => .receiveGet remoteIndex port key answers
  | .put key value => .receivePut remoteIndex key value
  | .singletonPut key value singleton forwardCount =>
      .receiveSingletonPut key value singleton forwardCount
  | .delete key => .receiveDelete key

/-- The flows of the get requests, with the one of this message. -/
def Message.requestFlows (requestFlows : List MachnetFlow) (rxFlow : MachnetFlow) :
    Message → List MachnetFlow
  | .get _ _ => requestFlows ++ [rxFlow]
  | .put _ _ | .singletonPut _ _ _ _ | .delete _ => requestFlows

/-- The step takes a packet. -/
def ServerLabel.isReceive : ServerLabel → Bool
  | .receiveGet _ _ _ _ | .receivePut _ _ _ | .receiveSingletonPut _ _ _ _ | .receiveDelete _ =>
      true
  | .slotReadCompleted _ _ _ | .blockReadCompleted _ _ | .diskReadCompleted _ _
  | .sendRdmaGetResponse _ | .sendBlockCacheRequest _ | .sendSingletonPutRequest _ => false

/-- What happens next at a server thread. -/
inductive EndpointLabel where
  /-- A packet arrives. -/
  | receive (rxFlow : MachnetFlow) (message : Message)
  /-- Another step of the server. -/
  | run (label : ServerLabel)

section Steps

variable {config : ConnectionConfig} (channel : Channel config)

/-- The connection to the next server of the ring, if there is one. -/
def Channel.forwardFlow : Option MachnetFlow :=
  if config.otherServer (remoteIndexToForward config.server) then
    some (channel.connect (remoteIndexToForward config.server))
  else none

/-- `get_response`, `put_response` and `singleton_put_request`, each with its key. `rxFlow` is the
flow of the packet that is being handled. -/
def sendPacket (rxFlow : Option MachnetFlow) (st : EndpointState) :
    ServerPacket → EndpointState
  | .getResponse request value =>
      st.send (.getResponse request value) (request.remoteIndex, request.remotePort)
        (st.requestFlows[request.id]?.map MachnetFlow.reverse)
  -- the answer is sent while the request is handled
  | .putResponse remoteIndex =>
      -- the overload without a port takes the one of the configuration
      st.send (.putResponse remoteIndex) (remoteIndex, config.basePort remoteIndex)
        (rxFlow.map MachnetFlow.reverse)
  | .singletonPutRequest index port evicted =>
      -- both were chosen when the forward was queued
      st.send (.singletonPutRequest index port evicted) (index, port) channel.forwardFlow

/-- An effect on a server thread. -/
def performEffect (rxFlow : Option MachnetFlow) (st : EndpointState) (effect : ServerEffect) :
    EndpointState :=
  let st' := { st with server := applyEffect st.server effect }
  match effect with
  | .send packet => sendPacket channel rxFlow st' packet
  | _ => st'

/-- A step of the server with its effects. -/
def endpointMove (rxFlow : Option MachnetFlow) (st : EndpointState) (label : ServerLabel) :
    Option EndpointState :=
  (serverMove config.server st.server label).map fun (server, effects) =>
    effects.foldl (performEffect channel rxFlow) { st with server := server }

/-- One step of a server thread. -/
def endpointStep (st : EndpointState) : EndpointLabel → Option EndpointState
  | .receive rxFlow message =>
      if channel.arrives rxFlow then
        endpointMove channel (some rxFlow)
          { st with
            table := st.table.receive config rxFlow
            arrived := rxFlow :: st.arrived
            requestFlows := message.requestFlows st.requestFlows rxFlow }
          (message.label (config.dstIpToMachineIndex rxFlow.srcIp) rxFlow.srcPort)
      else none
  | .run label => if label.isReceive then none else endpointMove channel none st label

/-- The key that a step looks up is the one recorded for the flow its packet belongs on: a
`PutRequest` comes from the base port of its machine, and a singleton forward goes to another
server, whose base port is the one of this machine. -/
def PortsAgree (config : ConnectionConfig) (_ : EndpointState) : EndpointLabel → Prop
  | .receive rxFlow (.put _ _) =>
      rxFlow.srcPort = config.basePort (config.dstIpToMachineIndex rxFlow.srcIp)
  | .run (.sendSingletonPutRequest _) =>
      config.otherServer (remoteIndexToForward config.server) = true ∧
        config.basePort (remoteIndexToForward config.server) = config.server.port
  | .receive _ (.get _ _) | .receive _ (.singletonPut _ _ _ _) | .receive _ (.delete _)
  | .run (.receiveGet _ _ _ _) | .run (.receivePut _ _ _) | .run (.receiveSingletonPut _ _ _ _)
  | .run (.receiveDelete _) | .run (.slotReadCompleted _ _ _) | .run (.blockReadCompleted _ _)
  | .run (.diskReadCompleted _ _) | .run (.sendRdmaGetResponse _)
  | .run (.sendBlockCacheRequest _) => True

end Steps

/-! ## The server of a thread -/

section Projection

variable {config : ConnectionConfig} {channel : Channel config}

/-- Effects act on the server as they do without a table. -/
theorem performEffects_server (rxFlow : Option MachnetFlow) (st : EndpointState)
    (effects : List ServerEffect) :
    (effects.foldl (performEffect channel rxFlow) st).server = applyEffects st.server effects := by
  induction effects generalizing st with
  | nil => rfl
  | cons effect effects ih =>
    rw [List.foldl_cons, ih, applyEffects, applyEffects, List.foldl_cons]
    congr 1
    cases effect with
    | send packet => cases packet <;> rfl
    | _ => rfl

/-- The packets recorded are those the server has sent. -/
theorem performEffects_sends (rxFlow : Option MachnetFlow) {st : EndpointState}
    (h : st.sends.map SendRecord.packet = st.server.sent) (effects : List ServerEffect) :
    (effects.foldl (performEffect channel rxFlow) st).sends.map SendRecord.packet
      = (effects.foldl (performEffect channel rxFlow) st).server.sent := by
  induction effects generalizing st with
  | nil => exact h
  | cons effect effects ih =>
    rw [List.foldl_cons]
    refine ih ?_
    cases effect with
    | send packet =>
      cases packet <;>
      · show (st.sends ++ [_]).map SendRecord.packet = st.server.sent ++ [_]
        rw [List.map_append, h]
        rfl
    | _ => exact h

/-- A move leaves the packets sent as they were. -/
theorem sent_serverMove {config : ServerConfig} {st st₁ : ServerState} {label : ServerLabel}
    {effects : List ServerEffect} (h : serverMove config st label = some (st₁, effects)) :
    st₁.sent = st.sent := by
  cases serverMove_cases h <;> rfl

/-- A move of a thread is one of its server, and records what the server sends. -/
theorem endpointMove_server {rxFlow : Option MachnetFlow} {st st' : EndpointState}
    {label : ServerLabel} (hsent : st.sends.map SendRecord.packet = st.server.sent)
    (h : endpointMove channel rxFlow st label = some st') :
    serverStep config.server st.server label = some st'.server ∧
      st'.sends.map SendRecord.packet = st'.server.sent := by
  rw [endpointMove, Option.map_eq_some_iff] at h
  obtain ⟨⟨server, effects⟩, hmove, rfl⟩ := h
  refine ⟨?_, performEffects_sends rxFlow ?_ effects⟩
  · rw [serverStep, hmove, performEffects_server]
    rfl
  · rw [hsent]
    exact (sent_serverMove hmove).symm

/-- **A run of a thread is a run of its server**, and every packet that the server sends is
recorded. -/
theorem server_reachable {st : EndpointState}
    (h : Reachable (endpointStep channel) (.initial channel) st) :
    Reachable (serverStep config.server) .initial st.server ∧
      st.sends.map SendRecord.packet = st.server.sent := by
  induction h with
  | refl => exact ⟨.refl, rfl⟩
  | @tail st st' label _ _ hs ih =>
    obtain ⟨hreached, hsent⟩ := ih
    cases label with
    | receive rxFlow message =>
      rw [endpointStep] at hs
      split at hs
      · obtain ⟨hstep, hsent'⟩ := endpointMove_server (by exact hsent) hs
        exact ⟨hreached.tail trivial hstep, hsent'⟩
      · cases hs
    | run label =>
      rw [endpointStep] at hs
      split at hs
      · cases hs
      · obtain ⟨hstep, hsent'⟩ := endpointMove_server (by exact hsent) hs
        exact ⟨hreached.tail trivial hstep, hsent'⟩

end Projection

end TwigKV.Server
