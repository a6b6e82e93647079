import TwigKV.Server.Endpoints
import TwigKV.Server.HandlerRules

/-! # Where a server thread's packets go

Each packet belongs on one flow: a response on the way back of its request, a singleton forward on
the connection to the next server. Three facts about the table decide where it goes (`TableOk`): the
keys of arrived packets hold the ways back, the keys of the other servers the connections, and every
recorded key a flow to the port in the key. The key of a `GetResponse` always agrees with them
(`getResponses_right`); that of a `PutResponse` does if its request came from the base port of its
machine, and that of a singleton forward if the two servers have one base port
(`endpoints_right_iff`). -/

namespace TwigKV.Server

/-! ## The machine of an address -/

section Lookup

variable {config : ConnectionConfig}

/-- The index found for the address of a machine is that of a machine with this address. -/
theorem ip_dstIpToMachineIndex {machine : RemoteMachineConfig}
    (hmachine : machine ∈ config.remoteMachineConfigs) :
    ∃ found, config.remoteMachineConfigs[config.dstIpToMachineIndex machine.ip]? = some found ∧
      found.ip = machine.ip := by
  obtain ⟨i, hi⟩ := List.mem_iff_getElem?.mp hmachine
  have hwrite : (machine.ip, i) ∈ config.machineIndexWrites :=
    List.mem_map.mpr ⟨(machine, i), List.mem_zipIdx_iff_getElem?.mpr hi, rfl⟩
  obtain ⟨j, hj⟩ := Option.isSome_iff_exists.mp (lastWritten_isSome_of_mem hwrite)
  have hindex : config.dstIpToMachineIndex machine.ip = j := by
    rw [ConnectionConfig.dstIpToMachineIndex, applyWrites_apply, hj, Option.getD_some]
  -- the last write for the address is also that of a machine
  obtain ⟨⟨found, k⟩, hfound, heq⟩ := List.mem_map.mp (mem_of_lastWritten hj)
  rw [Prod.mk.injEq] at heq
  obtain ⟨hip, rfl⟩ := heq
  rw [hindex]
  exact ⟨found, List.mem_zipIdx_iff_getElem?.mp hfound, hip⟩

/-- A machine that the thread connects to is configured, and another one. -/
theorem otherServer_spec {i : ℕ} (h : config.otherServer i = true) :
    i ≠ config.machineIndex ∧ ∃ machine, config.remoteMachineConfigs[i]? = some machine := by
  rw [ConnectionConfig.otherServer, Bool.and_eq_true, decide_eq_true_eq] at h
  refine ⟨h.1, ?_⟩
  cases hmachine : config.remoteMachineConfigs[i]? with
  | none =>
    rw [hmachine] at h
    exact absurd h.2 Bool.false_ne_true
  | some machine => exact ⟨machine, rfl⟩

/-- Arrived packets with one index come from one address. -/
theorem Channel.srcIp_eq {channel : Channel config} {flow flow' : MachnetFlow}
    (harrives : channel.arrives flow = true) (harrives' : channel.arrives flow' = true)
    (hindex : config.dstIpToMachineIndex flow.srcIp = config.dstIpToMachineIndex flow'.srcIp) :
    flow.srcIp = flow'.srcIp := by
  obtain ⟨machine, hmachine, hip⟩ := channel.configured flow harrives
  obtain ⟨machine', hmachine', hip'⟩ := channel.configured flow' harrives'
  obtain ⟨found, hfound, heq⟩ := ip_dstIpToMachineIndex hmachine
  obtain ⟨found', hfound', heq'⟩ := ip_dstIpToMachineIndex hmachine'
  rw [hip] at hfound heq
  rw [hip', ← hindex, hfound, Option.some.injEq] at hfound'
  rw [← heq, hfound', heq', hip']

end Lookup

/-! ## Recorded keys -/

namespace ConnectionTable

/-- A key has been recorded, and the table has the flow under it. -/
structure Records (table : ConnectionTable) (key : ℕ × ℕ) (flow : MachnetFlow) : Prop where
  /-- The key has been recorded. -/
  recorded : key ∈ table.recorded
  /-- The flow is its entry. -/
  entry : table.machineIndexToConnection key = some flow

variable {table : ConnectionTable} {key key' : ℕ × ℕ} {flow flow' : MachnetFlow}

/-- What is recorded is in the table. -/
theorem records_recordFlow (table : ConnectionTable) (key : ℕ × ℕ) (flow : MachnetFlow) :
    (table.recordFlow key flow).Records key flow :=
  ⟨List.mem_cons_self, Function.update_self ..⟩

/-- It stays there unless another flow is recorded under its key. -/
theorem Records.recordFlow (h : table.Records key flow) (hsame : key = key' → flow = flow') :
    (table.recordFlow key' flow').Records key flow := by
  refine ⟨List.mem_cons_of_mem _ h.recorded, ?_⟩
  show Function.update table.machineIndexToConnection key' (some flow') key = some flow
  by_cases hkey : key = key'
  · rw [hkey, Function.update_self, hsame hkey]
  · rw [Function.update_of_ne hkey]
    exact h.entry

/-- A lookup finds what is recorded. -/
theorem Records.flowAt (h : table.Records key flow) : table.flowAt key = flow := by
  rw [ConnectionTable.flowAt, h.entry, Option.getD_some]

/-- A lookup leaves it in the table. -/
theorem Records.afterLookup (h : table.Records key flow) (key' : ℕ × ℕ) :
    (table.afterLookup key').Records key flow := by
  refine ⟨h.recorded, ?_⟩
  show Function.update table.machineIndexToConnection key' (some (table.flowAt key')) key
    = some flow
  by_cases hkey : key = key'
  · rw [hkey, Function.update_self, ← hkey, h.flowAt]
  · rw [Function.update_of_ne hkey]
    exact h.entry

end ConnectionTable

/-! ## The table of a thread -/

section Table

variable {config : ConnectionConfig} {channel : Channel config} {table : ConnectionTable}
  {arrived : List MachnetFlow}

/-- The flow under a key leads to the port in the key; that of `listen` leads nowhere. -/
def LeadsTo (config : ConnectionConfig) (key : ℕ × ℕ) (flow : MachnetFlow) : Prop :=
  flow.dstPort = key.2 ∨ key.1 = config.machineIndex ∧ flow.dstPort = 0

/-- Every recorded key has an entry, with a flow to its port. -/
def KeysLead (config : ConnectionConfig) (table : ConnectionTable) : Prop :=
  ∀ key ∈ table.recorded, ∃ flow, table.Records key flow ∧ LeadsTo config key flow

/-- What the table of a server thread holds, after packets on the arrived flows. -/
structure TableOk (channel : Channel config) (arrived : List MachnetFlow)
    (table : ConnectionTable) : Prop where
  /-- Packets can arrive on these flows. -/
  arrives : ∀ flow ∈ arrived, channel.arrives flow = true
  /-- The way back of every packet. -/
  received : ∀ flow ∈ arrived,
    table.Records (config.dstIpToMachineIndex flow.srcIp, flow.srcPort) flow.reverse
  /-- The connections. -/
  connected : ∀ i, config.otherServer i = true →
    table.Records (i, config.threadPort i) (channel.connect i)
  /-- Every recorded key. -/
  keysLead : KeysLead config table

/-- Recording a flow to the port of its key. -/
theorem KeysLead.recordFlow (h : KeysLead config table) {key : ℕ × ℕ} {flow : MachnetFlow}
    (hflow : LeadsTo config key flow) : KeysLead config (table.recordFlow key flow) := by
  intro key' hkey'
  by_cases hsame : key' = key
  · rw [hsame]
    exact ⟨flow, table.records_recordFlow key flow, hflow⟩
  · obtain ⟨flow', hrecords, hleads⟩ := h key' (List.mem_of_ne_of_mem hsame hkey')
    exact ⟨flow', hrecords.recordFlow fun heq => absurd heq hsame, hleads⟩

/-- A connection leads to the port of its key. -/
theorem leadsTo_connect (channel : Channel config) {i : ℕ} (hother : config.otherServer i = true) :
    LeadsTo config (i, config.threadPort i) (channel.connect i) := by
  obtain ⟨-, machine, hmachine⟩ := otherServer_spec hother
  exact Or.inl (channel.connect_dst i machine hother hmachine).2

/-- Connecting to some of the other servers. -/
theorem connect_foldl (channel : Channel config) {servers : List ℕ}
    (hservers : ∀ i ∈ servers, config.otherServer i = true) (hkeys : KeysLead config table) :
    KeysLead config
        (servers.foldl (ConnectionTable.connectToRemoteMachine channel) table) ∧
      ∀ i, i ∈ servers ∨ table.Records (i, config.threadPort i) (channel.connect i) →
        (servers.foldl (ConnectionTable.connectToRemoteMachine channel) table).Records
          (i, config.threadPort i) (channel.connect i) := by
  induction servers generalizing table with
  | nil => exact ⟨hkeys, fun i hi => hi.resolve_left List.not_mem_nil⟩
  | cons j servers ih =>
    have hother := hservers j List.mem_cons_self
    obtain ⟨hlead, hconnected⟩ := ih (fun i hi => hservers i (List.mem_cons_of_mem _ hi))
      (hkeys.recordFlow (leadsTo_connect channel hother))
    refine ⟨hlead, fun i hi => hconnected i ?_⟩
    by_cases hij : i = j
    · subst hij
      exact Or.inr (table.records_recordFlow _ _)
    · -- the key of another server has another index
      rcases hi with hmem | hrecords
      · exact Or.inl (List.mem_of_ne_of_mem hij hmem)
      · refine Or.inr (hrecords.recordFlow fun hkey => ?_)
        exact absurd (congrArg Prod.fst hkey) hij

/-- The table of a server thread that has started. -/
theorem tableOk_connected : TableOk channel [] (.connected channel) := by
  have hlisten : KeysLead config (ConnectionTable.nothingRecorded.listen config) := by
    refine KeysLead.recordFlow (fun key hkey => absurd hkey List.not_mem_nil) ?_
    exact Or.inr ⟨rfl, rfl⟩
  have hservers : ∀ i ∈ (List.range config.remoteMachineConfigs.length).filter config.otherServer,
      config.otherServer i = true := fun i hi => (List.mem_filter.mp hi).2
  obtain ⟨hlead, hconnected⟩ := connect_foldl channel hservers hlisten
  refine ⟨List.forall_mem_nil _, List.forall_mem_nil _,
    fun i hother => hconnected i (Or.inl ?_), hlead⟩
  obtain ⟨-, machine, hmachine⟩ := otherServer_spec hother
  have hlt := (List.getElem?_eq_some_iff.mp hmachine).1
  exact List.mem_filter.mpr ⟨List.mem_range.mpr hlt, hother⟩

/-- A packet keeps the table right. -/
theorem TableOk.receive (h : TableOk channel arrived table) {rxFlow : MachnetFlow}
    (harrives : channel.arrives rxFlow = true) :
    TableOk channel (rxFlow :: arrived) (table.receive config rxFlow) := by
  have hlead : LeadsTo config (config.dstIpToMachineIndex rxFlow.srcIp, rxFlow.srcPort)
      rxFlow.reverse := Or.inl rfl
  refine ⟨List.forall_mem_cons.mpr ⟨harrives, h.arrives⟩, ?_, ?_, h.keysLead.recordFlow hlead⟩
  · refine List.forall_mem_cons.mpr ⟨table.records_recordFlow _ _, fun flow hflow => ?_⟩
    refine (h.received flow hflow).recordFlow fun hkey => ?_
    -- one key means one remote endpoint, and that one flow
    rw [Prod.mk.injEq] at hkey
    have hip := channel.srcIp_eq (h.arrives flow hflow) harrives hkey.1
    rw [channel.arrives_unique flow rxFlow (h.arrives flow hflow) harrives hip hkey.2]
  · intro i hother
    refine (h.connected i hother).recordFlow fun hkey => ?_
    -- the packet came from the server of the connection
    rw [Prod.mk.injEq] at hkey
    obtain ⟨-, machine, hmachine⟩ := otherServer_spec hother
    obtain ⟨hdstIp, hdstPort⟩ := channel.connect_dst i machine hother hmachine
    obtain ⟨sender, hsender, hip⟩ := channel.configured rxFlow harrives
    obtain ⟨found, hfound, heq⟩ := ip_dstIpToMachineIndex hsender
    rw [hip, ← hkey.1, hmachine, Option.some.injEq] at hfound
    have hsrcIp : rxFlow.srcIp = (channel.connect i).dstIp := by
      rw [hdstIp, hfound, heq, hip]
    have hsrcPort : rxFlow.srcPort = (channel.connect i).dstPort := by
      rw [hdstPort, hkey.2]
    rw [channel.connect_unique rxFlow i harrives hother hsrcIp hsrcPort,
      MachnetFlow.reverse_reverse]

/-- So does a lookup. -/
theorem TableOk.afterLookup (h : TableOk channel arrived table) (key : ℕ × ℕ) :
    TableOk channel arrived (table.afterLookup key) where
  arrives := h.arrives
  received := fun flow hflow => (h.received flow hflow).afterLookup key
  connected := fun i hother => (h.connected i hother).afterLookup key
  keysLead := fun key' hkey' =>
    let ⟨flow, hrecords, hleads⟩ := h.keysLead key' hkey'
    ⟨flow, hrecords.afterLookup key, hleads⟩

/-! ## One packet -/

/-- A packet sent through the key of its flow. -/
theorem right_of_records {key : ℕ × ℕ} {flow : MachnetFlow} (h : table.Records key flow)
    (packet : ServerPacket) : (table.sendRecord packet key (some flow)).Right :=
  ⟨decide_eq_true h.recorded, congrArg some h.flowAt.symm⟩

/-- A packet that goes to the right endpoint is sent through a key with the port of its flow. -/
theorem leadsTo_of_right (h : KeysLead config table) {packet : ServerPacket} {key : ℕ × ℕ}
    {expected : Option MachnetFlow} (hright : (table.sendRecord packet key expected).Right) :
    ∃ flow, expected = some flow ∧ LeadsTo config key flow := by
  obtain ⟨hrecorded, hexpected⟩ := hright
  obtain ⟨flow, hrecords, hleads⟩ := h key (of_decide_eq_true hrecorded)
  refine ⟨flow, ?_, hleads⟩
  rw [← hrecords.flowAt]
  exact hexpected

/-- **A `PutResponse`** goes to the right endpoint just when its request came from the base port of
its machine. -/
theorem right_putResponse_iff (h : TableOk channel arrived table) {rxFlow : MachnetFlow}
    (hrx : rxFlow ∈ arrived) (packet : ServerPacket) :
    (table.sendRecord packet (config.dstIpToMachineIndex rxFlow.srcIp,
        config.basePort (config.dstIpToMachineIndex rxFlow.srcIp)) (some rxFlow.reverse)).Right ↔
      rxFlow.srcPort = config.basePort (config.dstIpToMachineIndex rxFlow.srcIp) := by
  constructor
  · intro hright
    obtain ⟨flow, hflow, hleads⟩ := leadsTo_of_right h.keysLead hright
    rw [Option.some.injEq] at hflow
    rw [← hflow] at hleads
    rcases hleads with hport | ⟨-, hzero⟩
    · exact hport
    · -- the flow that `listen` recorded leads to no port
      exact absurd hzero (channel.srcPort_ne_zero rxFlow (h.arrives rxFlow hrx))
  · intro hport
    rw [← hport]
    exact right_of_records (h.received rxFlow hrx) packet

/-- **A singleton forward** goes to the right endpoint just when there is a next server and its base
port is the one of this machine. -/
theorem right_forward_iff (h : TableOk channel arrived table) (packet : ServerPacket) :
    (table.sendRecord packet (remoteIndexToForward config.server,
        config.server.port + config.server.threadIndex) channel.forwardFlow).Right ↔
      config.otherServer (remoteIndexToForward config.server) = true ∧
        config.basePort (remoteIndexToForward config.server) = config.server.port := by
  by_cases hother : config.otherServer (remoteIndexToForward config.server) = true
  · rw [Channel.forwardFlow, if_pos hother]
    obtain ⟨hne, machine, hmachine⟩ := otherServer_spec hother
    have hdstPort := (channel.connect_dst _ machine hother hmachine).2
    constructor
    · intro hright
      obtain ⟨flow, hflow, hleads⟩ := leadsTo_of_right h.keysLead hright
      rw [Option.some.injEq] at hflow
      rw [← hflow] at hleads
      rcases hleads with hport | ⟨hself, -⟩
      · rw [hdstPort, ConnectionConfig.threadPort] at hport
        exact ⟨hother, Nat.add_right_cancel hport⟩
      · exact absurd hself hne
    · rintro ⟨-, hport⟩
      rw [← hport]
      exact right_of_records (h.connected _ hother) packet
  · rw [Channel.forwardFlow, if_neg hother]
    constructor
    · rintro ⟨-, hexpected⟩
      exact absurd hexpected (Option.some_ne_none _).symm
    · rintro ⟨htrue, -⟩
      exact absurd htrue hother

end Table

/-! ## Requests under way -/

section Requests

variable {config : ServerConfig} {P P' : GetRequest → Prop}

/-- The requests a server has under way satisfy `P`, and its queued forwards are for the next
server. -/
structure RequestsUnderWay (config : ServerConfig) (P : GetRequest → Prop) (st : ServerState) :
    Prop where
  /-- Slot reads. -/
  pendingReads : ∀ read ∈ st.pendingReads, P read.request
  /-- Block reads. -/
  pendingOps : ∀ read ∈ st.pendingOps, P read.request
  /-- Database reads. -/
  pendingDisk : ∀ read ∈ st.pendingDisk, P read.request
  /-- Responses of RDMA reads. -/
  rdmaGetResponseQueue : ∀ response ∈ st.rdmaGetResponseQueue, P response.request
  /-- Responses of database reads. -/
  blockCacheRequestQueue : ∀ response ∈ st.blockCacheRequestQueue, P response.request
  /-- Singleton put requests. -/
  singletonPutRequestQueue : ∀ put ∈ st.singletonPutRequestQueue,
    put.index = remoteIndexToForward config ∧ put.port = config.port + config.threadIndex

/-- An effect concerns a request that satisfies `P`, and sends no packet but its response. -/
def EffectConcerns (config : ServerConfig) (P : GetRequest → Prop) : ServerEffect → Prop
  | .send (.getResponse request _) => P request
  | .send (.putResponse _) | .send (.singletonPutRequest _ _ _) => False
  | .readSlot read => P read.request
  | .readBlock read => P read.request
  | .getAsync read => P read.request
  | .appendRdmaGetResponse response | .appendBlockCacheRequest response => P response.request
  | .appendSingletonPutRequest put =>
      put.index = remoteIndexToForward config ∧ put.port = config.port + config.threadIndex
  | .snapshot _ _ | .blockCachePut _ _ | .blockCacheGet _ _ | .cachePut _ _ | .putNchance _ _
  | .putAccessRateMatch _ _ | .putSingleton _ _ _ _ | .deleteKey _ | .updateLocalKey _ _ _ => True

/-- What holds of the requests under way may be weakened. -/
theorem RequestsUnderWay.mono {st : ServerState} (h : RequestsUnderWay config P st)
    (hsub : ∀ request, P request → P' request) : RequestsUnderWay config P' st where
  pendingReads := fun read hmem => hsub _ (h.pendingReads read hmem)
  pendingOps := fun read hmem => hsub _ (h.pendingOps read hmem)
  pendingDisk := fun read hmem => hsub _ (h.pendingDisk read hmem)
  rdmaGetResponseQueue := fun response hmem => hsub _ (h.rdmaGetResponseQueue response hmem)
  blockCacheRequestQueue := fun response hmem => hsub _ (h.blockCacheRequestQueue response hmem)
  singletonPutRequestQueue := h.singletonPutRequestQueue

/-- A server that has received nothing. -/
theorem requestsUnderWay_initial : RequestsUnderWay config P .initial where
  pendingReads := List.forall_mem_nil _
  pendingOps := List.forall_mem_nil _
  pendingDisk := List.forall_mem_nil _
  rdmaGetResponseQueue := List.forall_mem_nil _
  blockCacheRequestQueue := List.forall_mem_nil _
  singletonPutRequestQueue := List.forall_mem_nil _

/-- An effect that concerns such a request. -/
theorem RequestsUnderWay.applyEffect {st : ServerState} (h : RequestsUnderWay config P st)
    {effect : ServerEffect} (heffect : EffectConcerns config P effect) :
    RequestsUnderWay config P (applyEffect st effect) := by
  cases effect with
  | readSlot read => exact { h with pendingReads := forall_mem_concat h.pendingReads heffect }
  | readBlock read => exact { h with pendingOps := forall_mem_concat h.pendingOps heffect }
  | getAsync read => exact { h with pendingDisk := forall_mem_concat h.pendingDisk heffect }
  | appendRdmaGetResponse response =>
    exact { h with rdmaGetResponseQueue := forall_mem_concat h.rdmaGetResponseQueue heffect }
  | appendBlockCacheRequest response =>
    exact { h with blockCacheRequestQueue := forall_mem_concat h.blockCacheRequestQueue heffect }
  | appendSingletonPutRequest put =>
    exact { h with
      singletonPutRequestQueue := forall_mem_concat h.singletonPutRequestQueue heffect }
  | send | snapshot => exact { h with }
  | blockCachePut | blockCacheGet | cachePut | putNchance | putAccessRateMatch | putSingleton
  | deleteKey | updateLocalKey => exact h

/-- Effects that concern such requests. -/
theorem RequestsUnderWay.applyEffects {st : ServerState} (h : RequestsUnderWay config P st)
    {effects : List ServerEffect} (heffects : ∀ effect ∈ effects, EffectConcerns config P effect) :
    RequestsUnderWay config P (applyEffects st effects) := by
  induction effects generalizing st with
  | nil => exact h
  | cons effect effects ih =>
    have hfirst := h.applyEffect (heffects effect List.mem_cons_self)
    exact ih hfirst fun e he => heffects e (List.mem_cons_of_mem _ he)

/-! ## Effects of the handlers -/

variable {request : GetRequest} {keyIndex : UInt64} {effects : List ServerEffect}

/-- `fetch_from_disk` concerns its request. -/
theorem diskRule_effectConcerns (hrequest : P request) :
    DiskRule config request (EffectConcerns config P) where
  getAsync := fun _ _ => hrequest
  blockCacheGet := fun _ _ => trivial
  getResponse := fun _ _ => hrequest

/-- So does the RDMA part of the get handler. -/
theorem rdmaRule_effectConcerns (hrequest : P request) :
    RdmaRule config request keyIndex (EffectConcerns config P) where
  readSlot := fun _ _ _ => hrequest
  readBlock := fun _ => hrequest
  readBuffer := fun _ _ => hrequest

/-- The read callback concerns the request of its read, and forwards to the next server. -/
theorem matchRule_effectConcerns {read : SlotRead} (hread : P read.request)
    {kv : RDMACacheIndexKeyValue} {answers : CallbackAnswers} :
    MatchRule config (EffectConcerns config P) read kv answers where
  putNchance := trivial
  appendSingletonPutRequest := fun _ _ => ⟨rfl, rfl⟩
  putAccessRateMatch := trivial
  accessRate := trivial
  appendRdmaGetResponse := hread

/-- The step sends nothing but responses to get requests: neither a put request nor a singleton
forward. -/
def ServerLabel.SendsGetResponses : ServerLabel → Prop
  | .receivePut _ _ _ | .sendSingletonPutRequest _ => False
  | .receiveGet _ _ _ _ | .receiveSingletonPut _ _ _ _ | .receiveDelete _
  | .slotReadCompleted _ _ _ | .blockReadCompleted _ _ | .diskReadCompleted _ _
  | .sendRdmaGetResponse _ | .sendBlockCacheRequest _ => True

/-- A step concerns requests under way and the one it receives. -/
theorem effectConcerns_serverMove {st st₁ : ServerState} {label : ServerLabel}
    (hunder : RequestsUnderWay config P st)
    (hreceived : ∀ remoteIndex remotePort key answers,
      label = .receiveGet remoteIndex remotePort key answers →
        P ⟨st.received.length, remoteIndex, remotePort, cStr key⟩)
    (hlabel : label.SendsGetResponses)
    (h : serverMove config st label = some (st₁, effects)) :
    RequestsUnderWay config P st₁ ∧ ∀ effect ∈ effects, EffectConcerns config P effect := by
  cases serverMove_cases h with
  | @receiveGet remoteIndex remotePort key answers _ hget =>
    have hrequest := hreceived remoteIndex remotePort key answers rfl
    exact ⟨{ hunder with }, forall_mem_getHandler hget (fun _ _ => trivial) (fun _ => hrequest)
      (fun _ _ => rdmaRule_effectConcerns hrequest) (diskRule_effectConcerns hrequest)⟩
  | receivePut => exact hlabel.elim
  | receiveSingletonPut => exact ⟨hunder, List.forall_mem_singleton.mpr trivial⟩
  | receiveDelete => exact ⟨hunder, List.forall_mem_singleton.mpr trivial⟩
  | slotReadCompleted hqueue hcallback =>
    obtain ⟨hread, hrest⟩ := forall_mem_dequeueAt hqueue hunder.pendingReads
    exact ⟨{ hunder with pendingReads := hrest },
      forall_mem_slotCallback hcallback (fun _ => matchRule_effectConcerns hread)
        (fun _ _ => trivial) trivial (diskRule_effectConcerns hread)⟩
  | blockReadCompleted hqueue =>
    obtain ⟨hread, hrest⟩ := forall_mem_dequeueAt hqueue hunder.pendingOps
    exact ⟨{ hunder with pendingOps := hrest }, List.forall_mem_singleton.mpr hread⟩
  | diskReadCompleted hqueue hcallback =>
    obtain ⟨hread, hrest⟩ := forall_mem_dequeueAt hqueue hunder.pendingDisk
    exact ⟨{ hunder with pendingDisk := hrest }, forall_mem_diskCallback hcallback trivial hread⟩
  | sendRdmaGetResponse hqueue hsend =>
    obtain ⟨hresponse, hrest⟩ := forall_mem_dequeueAt hqueue hunder.rdmaGetResponseQueue
    exact ⟨{ hunder with rdmaGetResponseQueue := hrest }, forall_mem_sendQueued hsend hresponse⟩
  | sendBlockCacheRequest hqueue hsend =>
    obtain ⟨hresponse, hrest⟩ := forall_mem_dequeueAt hqueue hunder.blockCacheRequestQueue
    exact ⟨{ hunder with blockCacheRequestQueue := hrest }, forall_mem_sendQueued hsend hresponse⟩
  | sendSingletonPutRequest hqueue => exact hlabel.elim

/-- What a step leaves under way was under way or has been received. -/
theorem RequestsUnderWay.step {st st₁ : ServerState} {label : ServerLabel}
    (h : RequestsUnderWay config P st)
    (hreceived : ∀ remoteIndex remotePort key answers,
      label = .receiveGet remoteIndex remotePort key answers →
        P ⟨st.received.length, remoteIndex, remotePort, cStr key⟩)
    (hmove : serverMove config st label = some (st₁, effects)) :
    RequestsUnderWay config P (Server.applyEffects st₁ effects) := by
  by_cases hlabel : label.SendsGetResponses
  · obtain ⟨hunder, hconcerns⟩ := effectConcerns_serverMove h hreceived hlabel hmove
    exact hunder.applyEffects hconcerns
  · -- a put response or a singleton put request is sent, and nothing else happens to the server
    cases serverMove_cases hmove with
    | receivePut => exact { h with }
    | sendSingletonPutRequest hqueue =>
      exact { h with
        singletonPutRequestQueue := (forall_mem_dequeueAt hqueue h.singletonPutRequestQueue).2 }
    | _ => exact absurd trivial hlabel

end Requests

/-! ## Steps of a thread -/

section Run

variable {config : ConnectionConfig} {channel : Channel config}

/-- The request came on one of the arrived flows, from the machine and the port that it names. -/
def RequestOk (config : ConnectionConfig) (arrived requestFlows : List MachnetFlow)
    (request : GetRequest) : Prop :=
  ∃ flow ∈ arrived, requestFlows[request.id]? = some flow ∧
    request.remoteIndex = config.dstIpToMachineIndex flow.srcIp ∧ request.remotePort = flow.srcPort

/-- More packets arrive. -/
theorem RequestOk.mono {arrived arrived' requestFlows requestFlows' : List MachnetFlow}
    {request : GetRequest} (h : RequestOk config arrived requestFlows request)
    (harrived : arrived ⊆ arrived') (hflows : requestFlows <+: requestFlows') :
    RequestOk config arrived' requestFlows' request := by
  obtain ⟨flow, hmem, hflow, hindex, hport⟩ := h
  obtain ⟨later, rfl⟩ := hflows
  refine ⟨flow, harrived hmem, ?_, hindex, hport⟩
  rw [List.getElem?_append_left (List.getElem?_eq_some_iff.mp hflow).1]
  exact hflow

/-- What holds of a server thread in every state of every run. -/
structure EndpointInv (channel : Channel config) (st : EndpointState) : Prop where
  /-- The table. -/
  table : TableOk channel st.arrived st.table
  /-- The get requests are numbered in the order they were received. -/
  numbered : st.requestFlows.length = st.server.received.length
  /-- What the server has under way. -/
  underWay : RequestsUnderWay config.server (RequestOk config st.arrived st.requestFlows) st.server

/-- A server thread that has started. -/
theorem endpointInv_initial : EndpointInv channel (.initial channel) :=
  ⟨tableOk_connected, rfl, requestsUnderWay_initial⟩

/-- The packet is a `GetResponse`. -/
def SendRecord.IsGetResponse (send : SendRecord) : Prop :=
  ∃ request value, send.packet = .getResponse request value

/-- What a step adds to the packets sent: the responses to get requests have gone to the right
endpoints, and all of them if and only if `P`. -/
def SendsMore (st st' : EndpointState) (P : Prop) : Prop :=
  ∃ more, st'.sends = st.sends ++ more ∧ (∀ send ∈ more, send.IsGetResponse → send.Right) ∧
    ((∀ send ∈ more, send.Right) ↔ P)

/-- Packets that have all gone to the right endpoints. -/
theorem sendsMore_true {st st' : EndpointState} {more : List SendRecord}
    (hmore : st'.sends = st.sends ++ more) (hright : ∀ send ∈ more, send.Right) :
    SendsMore st st' True :=
  ⟨more, hmore, fun send hmem _ => hright send hmem, iff_of_true hright trivial⟩

/-- One packet, which is no `GetResponse`. -/
theorem sendsMore_singleton {st st' : EndpointState} {send : SendRecord} {P : Prop}
    (hmore : st'.sends = st.sends ++ [send]) (hget : ¬ send.IsGetResponse)
    (hright : send.Right ↔ P) : SendsMore st st' P := by
  refine ⟨[send], hmore, ?_, ?_⟩
  · exact List.forall_mem_singleton.mpr fun h => absurd h hget
  · rw [List.forall_mem_singleton]
    exact hright

/-- An effect of a handler keeps the invariant, and what it sends goes to the right endpoint. -/
theorem EndpointInv.performEffect {st : EndpointState} (h : EndpointInv channel st)
    (rxFlow : Option MachnetFlow) {effect : ServerEffect}
    (heffect : EffectConcerns config.server (RequestOk config st.arrived st.requestFlows) effect) :
    EndpointInv channel (performEffect channel rxFlow st effect) ∧
      (performEffect channel rxFlow st effect).arrived = st.arrived ∧
      (performEffect channel rxFlow st effect).requestFlows = st.requestFlows ∧
      SendsMore st (performEffect channel rxFlow st effect) True := by
  have hunder := h.underWay.applyEffect heffect
  have hnone : SendsMore st { st with server := applyEffect st.server effect } True :=
    sendsMore_true (List.append_nil _).symm (List.forall_mem_nil _)
  cases effect with
  | send packet =>
    cases packet with
    | getResponse request value =>
      -- the key of a response is the one its packet was recorded under
      obtain ⟨flow, hflow, hrequest, hindex, hport⟩ := heffect
      refine ⟨⟨h.table.afterLookup _, h.numbered, hunder⟩, rfl, rfl, sendsMore_true rfl ?_⟩
      refine List.forall_mem_singleton.mpr ?_
      rw [hrequest, hindex, hport, Option.map_some]
      exact right_of_records (h.table.received flow hflow) _
    | putResponse | singletonPutRequest => exact heffect.elim
  | snapshot | readSlot | readBlock | getAsync | appendRdmaGetResponse | appendBlockCacheRequest
  | appendSingletonPutRequest | blockCachePut | blockCacheGet | cachePut | putNchance
  | putAccessRateMatch | putSingleton | deleteKey | updateLocalKey =>
    exact ⟨⟨h.table, h.numbered, hunder⟩, rfl, rfl, hnone⟩

/-- So do the effects of a handler in order. -/
theorem EndpointInv.performEffects {st : EndpointState} (h : EndpointInv channel st)
    (rxFlow : Option MachnetFlow) {effects : List ServerEffect}
    (heffects : ∀ effect ∈ effects,
      EffectConcerns config.server (RequestOk config st.arrived st.requestFlows) effect) :
    EndpointInv channel (effects.foldl (TwigKV.Server.performEffect channel rxFlow) st) ∧
      SendsMore st (effects.foldl (TwigKV.Server.performEffect channel rxFlow) st) True := by
  induction effects generalizing st with
  | nil =>
    exact ⟨h, sendsMore_true (List.append_nil _).symm (List.forall_mem_nil _)⟩
  | cons effect effects ih =>
    obtain ⟨hfirst, harrived, hflows, first, hfirstSends, -, hfirstRight⟩ :=
      h.performEffect rxFlow (heffects effect List.mem_cons_self)
    have hrest : ∀ e ∈ effects, EffectConcerns config.server
        (RequestOk config (TwigKV.Server.performEffect channel rxFlow st effect).arrived
          (TwigKV.Server.performEffect channel rxFlow st effect).requestFlows) e := by
      rw [harrived, hflows]
      exact fun e he => heffects e (List.mem_cons_of_mem _ he)
    obtain ⟨hinv, more, hmore, -, hright⟩ := ih hfirst hrest
    refine ⟨hinv, sendsMore_true ?_ (List.forall_mem_append.mpr
      ⟨hfirstRight.mpr trivial, hright.mpr trivial⟩)⟩
    rw [List.foldl_cons, hmore, hfirstSends, List.append_assoc]

/-- A move that sends only responses to get requests keeps the invariant, and sends them to the
right endpoints. -/
theorem endpointMove_right {rxFlow : Option MachnetFlow} {st st' : EndpointState}
    {label : ServerLabel} (h : endpointMove channel rxFlow st label = some st')
    (hlabel : label.SendsGetResponses) (htable : TableOk channel st.arrived st.table)
    (hunder : RequestsUnderWay config.server (RequestOk config st.arrived st.requestFlows)
      st.server)
    (hreceived : ∀ remoteIndex remotePort key answers,
      label = .receiveGet remoteIndex remotePort key answers →
        RequestOk config st.arrived st.requestFlows
          ⟨st.server.received.length, remoteIndex, remotePort, cStr key⟩)
    (hnumbered : ∀ server effects,
      serverMove config.server st.server label = some (server, effects) →
        st.requestFlows.length = server.received.length) :
    EndpointInv channel st' ∧ SendsMore st st' True := by
  rw [endpointMove, Option.map_eq_some_iff] at h
  obtain ⟨⟨server, effects⟩, hmove, rfl⟩ := h
  obtain ⟨hunder', heffects⟩ := effectConcerns_serverMove hunder hreceived hlabel hmove
  have hmoved : EndpointInv channel { st with server := server } :=
    ⟨htable, hnumbered server effects hmove, hunder'⟩
  exact hmoved.performEffects rxFlow heffects

/-- A packet that arrives keeps the invariant, and is answered to the right endpoint just when its
port agrees. -/
theorem EndpointInv.receive {st st' : EndpointState} {rxFlow : MachnetFlow} {message : Message}
    (h : EndpointInv channel st)
    (hs : endpointStep channel st (.receive rxFlow message) = some st') :
    EndpointInv channel st' ∧ SendsMore st st'
      (PortsAgree config st (.receive rxFlow message)) := by
  rw [endpointStep] at hs
  split at hs
  case isFalse => cases hs
  case isTrue harrives =>
    have htable := h.table.receive harrives
    have hflows : st.requestFlows <+: message.requestFlows st.requestFlows rxFlow := by
      cases message with
      | get => exact List.prefix_append _ _
      | put | singletonPut | delete => exact List.prefix_rfl
    have hunder := h.underWay.mono fun request hrequest =>
      RequestOk.mono hrequest (List.subset_cons_self rxFlow st.arrived) hflows
    cases message with
    | get key answers =>
      have hmoved := endpointMove_right hs trivial htable hunder
      refine hmoved ?_ ?_
      · intro remoteIndex remotePort key' answers' heq
        cases heq
        -- the number of the request is the position of its flow
        refine ⟨rxFlow, List.mem_cons_self, ?_, rfl, rfl⟩
        show (st.requestFlows ++ [rxFlow])[st.server.received.length]? = some rxFlow
        rw [← h.numbered, List.getElem?_concat_length]
      · intro server effects hmove
        cases serverMove_cases hmove with
        | receiveGet hget =>
          show (st.requestFlows ++ [rxFlow]).length = (st.server.received ++ [_]).length
          rw [List.length_append, List.length_append, h.numbered]
          rfl
    | put key value =>
      cases hs
      refine ⟨⟨htable.afterLookup _, h.numbered, { hunder with }⟩, sendsMore_singleton rfl ?_ ?_⟩
      · rintro ⟨_, _, hpacket⟩
        cases hpacket
      · -- `receive` has recorded the flow of this very request
        exact right_putResponse_iff htable List.mem_cons_self _
    | singletonPut key value singleton forwardCount =>
      have hmoved := endpointMove_right hs trivial htable hunder
      refine hmoved ?_ ?_
      · intro _ _ _ _ heq
        cases heq
      · intro server effects hmove
        cases serverMove_cases hmove with
        | receiveSingletonPut => exact h.numbered
    | delete key =>
      have hmoved := endpointMove_right hs trivial htable hunder
      refine hmoved ?_ ?_
      · intro _ _ _ _ heq
        cases heq
      · intro server effects hmove
        cases serverMove_cases hmove with
        | receiveDelete => exact h.numbered

/-- A singleton forward keeps the invariant, and goes to the right endpoint just when the ports
agree. -/
theorem EndpointInv.forward {st st' : EndpointState} {i : ℕ} (h : EndpointInv channel st)
    (hs : endpointMove channel none st (.sendSingletonPutRequest i) = some st') :
    EndpointInv channel st' ∧
      SendsMore st st' (PortsAgree config st (.run (.sendSingletonPutRequest i))) := by
  rw [endpointMove, Option.map_eq_some_iff] at hs
  obtain ⟨⟨server, effects⟩, hmove, rfl⟩ := hs
  cases serverMove_cases hmove with
  | @sendSingletonPutRequest _ put rest hqueue =>
    obtain ⟨⟨hindex, hport⟩, hrest⟩ :=
      forall_mem_dequeueAt hqueue h.underWay.singletonPutRequestQueue
    refine ⟨⟨h.table.afterLookup _, h.numbered,
      { h.underWay with singletonPutRequestQueue := hrest }⟩, sendsMore_singleton rfl ?_ ?_⟩
    · rintro ⟨_, _, hpacket⟩
      cases hpacket
    · rw [hindex, hport]
      exact right_forward_iff h.table _

/-- One step keeps the invariant; the packets it sends go to the right endpoints just when its ports
agree. -/
theorem EndpointInv.step {st st' : EndpointState} {label : EndpointLabel}
    (h : EndpointInv channel st) (hs : endpointStep channel st label = some st') :
    EndpointInv channel st' ∧ SendsMore st st' (PortsAgree config st label) := by
  cases label with
  | receive rxFlow message => exact h.receive hs
  | run label =>
    rw [endpointStep] at hs
    split at hs
    case isTrue => cases hs
    case isFalse hinternal =>
      cases label with
      | receiveGet | receivePut | receiveSingletonPut | receiveDelete => exact absurd rfl hinternal
      | sendSingletonPutRequest i => exact h.forward hs
      | slotReadCompleted | blockReadCompleted | diskReadCompleted | sendRdmaGetResponse
      | sendBlockCacheRequest =>
        refine endpointMove_right hs trivial h.table h.underWay ?_ ?_
        · intro _ _ _ _ heq
          cases heq
        · intro server effects hmove
          cases serverMove_cases hmove
          exact h.numbered

/-- **Responses to get requests** always go back on the flow of their request. -/
theorem getResponses_right {st : EndpointState}
    (h : Reachable (endpointStep channel) (.initial channel) st) :
    ∀ send ∈ st.sends, send.IsGetResponse → send.Right := by
  have hinv : EndpointInv channel st ∧ ∀ send ∈ st.sends, send.IsGetResponse → send.Right := by
    apply h.invariant
    · exact ⟨endpointInv_initial, List.forall_mem_nil _⟩
    · rintro s label s' - ⟨hinv, hright⟩ - hs
      obtain ⟨hinv', more, hmore, hget, -⟩ := hinv.step hs
      rw [hmore]
      exact ⟨hinv', List.forall_mem_append.mpr ⟨hright, hget⟩⟩
  exact hinv.2

/-- **Packets go to the right endpoints**, through keys that have been recorded, if and only if
every `PutRequest` comes from the base port of its machine and every singleton forward goes to
another server, with the base port of this machine. -/
theorem endpoints_right_iff {labels : List EndpointLabel} {st : EndpointState}
    (hrun : runLabels (endpointStep channel) (.initial channel) labels = some st) :
    (∀ send ∈ st.sends, send.Right) ↔
      EveryStep (endpointStep channel) (PortsAgree config) (.initial channel) labels := by
  refine good_iff_everyStep (I := EndpointInv channel) (fun s => ∀ send ∈ s.sends, send.Right)
    (fun s => ¬ ∀ send ∈ s.sends, send.Right) ?_ ?_ ?_ ?_ ?_ endpointInv_initial ?_ hrun
  · exact fun _ _ _ hinv hs => (hinv.step hs).1
  · intro s label s' hinv hright hagree hs
    obtain ⟨-, more, hmore, -, hiff⟩ := hinv.step hs
    rw [hmore]
    exact List.forall_mem_append.mpr ⟨hright, hiff.mpr hagree⟩
  · intro s label s' hinv hright hagree hs hright'
    obtain ⟨-, more, hmore, -, hiff⟩ := hinv.step hs
    rw [hmore] at hright'
    exact hagree (hiff.mp (List.forall_mem_append.mp hright').2)
  · -- packets that have been sent stay recorded
    intro s label s' hinv hwrong hs hright'
    obtain ⟨-, more, hmore, -, -⟩ := hinv.step hs
    rw [hmore] at hright'
    exact hwrong (List.forall_mem_append.mp hright').1
  · exact fun _ hwrong => hwrong
  · exact List.forall_mem_nil _

end Run

/-! ## A ring of three servers -/

/-- Three clients and three servers, the second of which has a base port of its own. -/
def ringConfig (nextPort : ℕ) : ConnectionConfig where
  server := { indexingConfig true with policyType := .nchance }
  remoteMachineConfigs := [⟨1, 9000, false⟩, ⟨2, 9000, false⟩, ⟨3, 9000, false⟩,
    ⟨4, 8000, true⟩, ⟨5, nextPort, true⟩, ⟨6, 8000, true⟩]
  machineIndex := 3
  port_eq := rfl

/-- The connection of the first client to the first server, from a port that Machnet chose. -/
def clientFlow : MachnetFlow := ⟨1, 4, 50000, 8000⟩

/-- The first server connects only to the other two. -/
theorem otherServer_ringConfig {nextPort i : ℕ} (h : (ringConfig nextPort).otherServer i = true) :
    i = 4 ∨ i = 5 := by
  match i with
  | 0 | 1 | 2 | 3 => exact absurd h Bool.false_ne_true
  | 4 => exact Or.inl rfl
  | 5 => exact Or.inr rfl
  | i + 6 =>
    obtain ⟨-, machine, hmachine⟩ := otherServer_spec h
    cases hmachine

/-- The channel of the first server, with that client only. -/
def ringChannel (nextPort : ℕ) : Channel (ringConfig nextPort) where
  connect i := ⟨4, UInt32.ofNat (i + 1), 40000 + i, (ringConfig nextPort).threadPort i⟩
  arrives flow := decide (flow = clientFlow)
  connect_dst := by
    intro i machine hother hmachine
    rcases otherServer_ringConfig hother with rfl | rfl
    · cases hmachine
      exact ⟨rfl, rfl⟩
    · cases hmachine
      exact ⟨rfl, rfl⟩
  configured := by
    intro flow harrives
    rw [of_decide_eq_true harrives]
    exact ⟨⟨1, 9000, false⟩, List.mem_cons_self, rfl⟩
  srcPort_ne_zero := by
    intro flow harrives
    rw [of_decide_eq_true harrives]
    decide
  arrives_unique := by
    intro flow flow' harrives harrives' _ _
    rw [of_decide_eq_true harrives, of_decide_eq_true harrives']
  connect_unique := by
    intro flow i harrives hother hip _
    rw [of_decide_eq_true harrives] at hip
    rcases otherServer_ringConfig hother with rfl | rfl
    · exact absurd hip (by decide : (1 : UInt32) ≠ UInt32.ofNat (4 + 1))
    · exact absurd hip (by decide : (1 : UInt32) ≠ UInt32.ofNat (5 + 1))

/-- A get that the next server's slot answers, with an eviction that is forwarded. -/
def forwardRun : List EndpointLabel :=
  [.receive clientFlow (.get "1" ⟨false, "", fun _ => 0, true, "", ⟨"", none⟩⟩),
    .run (.slotReadCompleted 0 ⟨1, "A"⟩ ⟨some ⟨"2", "B", true, 0⟩, false, ⟨"", none⟩⟩),
    .run (.sendRdmaGetResponse 0),
    .run (.sendSingletonPutRequest 0)]

/-- Between servers of one base port both packets go to the right endpoints. -/
theorem endpoints_right_iff_forward :
    ∃ st, runLabels (endpointStep (ringChannel 8000)) (.initial (ringChannel 8000)) forwardRun
        = some st ∧
      st.sends.map SendRecord.key = [(0, 50000), (4, 8000)] ∧ ∀ send ∈ st.sends, send.Right := by
  have hrun : ∃ st, runLabels (endpointStep (ringChannel 8000)) (.initial (ringChannel 8000))
      forwardRun = some st ∧ st.sends.map SendRecord.key = [(0, 50000), (4, 8000)] :=
    ⟨_, rfl, rfl⟩
  obtain ⟨st, hst, hkeys⟩ := hrun
  refine ⟨st, hst, hkeys, (endpoints_right_iff hst).mpr ?_⟩
  exact ⟨trivial, trivial, trivial, ⟨rfl, rfl⟩, trivial⟩

/-- A client's `PutRequest` is answered on an empty flow, under a key that was never recorded; with
a base port of its own the next server does not get the forward. -/
theorem endpoints_wrong :
    (∃ st, runLabels (endpointStep (ringChannel 8000)) (.initial (ringChannel 8000))
        [.receive clientFlow (.put "1" "A")] = some st ∧
      st.sends = [⟨.putResponse 0, (0, 9000), false, .empty, some clientFlow.reverse⟩]) ∧
    (∃ st, runLabels (endpointStep (ringChannel 8100)) (.initial (ringChannel 8100)) forwardRun
        = some st ∧
      ∃ send ∈ st.sends, send.key = (4, 8000) ∧ send.recorded = false ∧ send.flow = .empty) ∧
    ¬ ∀ (config : ConnectionConfig) (channel : Channel config) (labels : List EndpointLabel)
      (st : EndpointState),
      runLabels (endpointStep channel) (.initial channel) labels = some st →
        ∀ send ∈ st.sends, send.Right := by
  have hput : ∃ st, runLabels (endpointStep (ringChannel 8000)) (.initial (ringChannel 8000))
        [.receive clientFlow (.put "1" "A")] = some st ∧
      st.sends = [⟨.putResponse 0, (0, 9000), false, .empty, some clientFlow.reverse⟩] :=
    ⟨_, rfl, rfl⟩
  refine ⟨hput, ⟨_, rfl, _, List.mem_cons_of_mem _ List.mem_cons_self, rfl, rfl, rfl⟩, fun h => ?_⟩
  obtain ⟨st, hst, hsends⟩ := hput
  have hright := h _ _ _ st hst ⟨.putResponse 0, (0, 9000), false, .empty, some clientFlow.reverse⟩
  rw [hsends] at hright
  exact Bool.false_ne_true (hright List.mem_cons_self).1

end TwigKV.Server
