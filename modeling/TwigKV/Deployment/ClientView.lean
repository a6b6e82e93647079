import TwigKV.Deployment.OpenRequests
import TwigKV.Deployment.System
import TwigKV.Foundations.Simulation

/-! # The servers as the clients see them

In the network model a server is a bag of requests, each of which it answers once with any value.
The threads of a real server go through caches, remote reads, databases and queues instead. To the
clients this makes no difference: every step of the system is a run of the network model
(`deployment_refines_network`), in which a response that a thread sends answers one of the server's
open requests. Without asynchronous RDMA reads it would make one: a thread then sends the read
buffer first, before it is filled, and a get would have two responses. -/

namespace TwigKV.Deployment

open ClientSync Server Cluster

/-- What a network's server has still to answer is an open request: `(a, number, key)` is the
request that a thread has received from client `a`. -/
def IsEntry (layout : Layout) (threads : ℕ → ServerState) (thread : ℕ × ℕ)
    (entry : ℕ × ℕ × String) :
    Prop :=
  ∃ request ∈ (threads thread.1).received, request.id = thread.2 ∧
    layout.client request.remoteIndex request.remotePort = entry.1 ∧ request.key = cStr entry.2.2

/-- The open requests of every server, as the network accounts for them. -/
structure ViewOk (layout : Layout) (c : ClusterConfig) (st : DeploymentState) : Prop where
  /-- The threads. -/
  threads : ∀ s t, ThreadOk (c.serverConfig s t) (st.cluster.servers s t)
  /-- No request is accounted for twice. -/
  nodup : ∀ s, (st.openRequests s).Nodup
  /-- They are the open ones. -/
  open_iff : ∀ s t id, (t, id) ∈ st.openRequests s ↔ Open (st.cluster.servers s t) id
  /-- The network has them in the same order. -/
  entries : ∀ s, List.Forall₂ (IsEntry layout (st.cluster.servers s)) (st.openRequests s)
    (st.network.unanswered (layout.firstServer + s))

variable {layout : Layout} {c : ClusterConfig} {st st' : DeploymentState}

/-- Nothing is open before a run. -/
theorem viewOk_initial (dataset : Dataset c) (ops : ℕ → List (String × ℕ)) :
    ViewOk layout c (.initial layout dataset ops) where
  threads := fun _ _ => threadOk_initial _
  nodup := fun _ => List.nodup_nil
  open_iff := fun _ _ _ =>
    ⟨fun h => absurd h List.not_mem_nil, fun h => absurd h.1 (Nat.not_lt_zero _)⟩
  entries := fun _ => .nil

/-! ## Answers -/

/-- An element of a list is taken out with its partner in a list beside it. -/
theorem dequeueAt_of_forall₂ {α β : Type*} [BEq α] [LawfulBEq α] {R : α → β → Prop} {xs : List α}
    {ys : List β} (h : List.Forall₂ R xs ys) {x : α} (hx : x ∈ xs) :
    ∃ y rest, dequeueAt ys (xs.idxOf x) = some (y, rest) ∧ R x y ∧
      List.Forall₂ R (xs.erase x) rest := by
  induction h with
  | nil => cases hx
  | @cons x' y' xs ys hxy hrest ih =>
    by_cases heq : x' = x
    · subst heq
      refine ⟨y', ys, ?_, hxy, ?_⟩
      · rw [List.idxOf_cons_self]
        rfl
      · rw [List.erase_cons_head]
        exact hrest
    · obtain ⟨y, rest, hdequeue, hR, hforall⟩ :=
        ih ((List.mem_cons.mp hx).resolve_left (Ne.symm heq))
      refine ⟨y, y' :: rest, ?_, hR, ?_⟩
      · rw [List.idxOf_cons_ne _ heq]
        obtain ⟨hget, herase⟩ := dequeueAt_eq_some.mp hdequeue
        exact dequeueAt_eq_some.mpr ⟨hget, by rw [List.eraseIdx_cons_succ, herase]⟩
      · rw [List.erase_cons_tail (by simpa using heq)]
        exact .cons hxy hforall

/-- What sending packets changes: the connections to the clients and the account of what is open. -/
structure SendsOnly (layout : Layout) (s : ℕ) (st st' : DeploymentState) : Prop where
  /-- The servers. -/
  cluster : st'.cluster = st.cluster
  /-- The keys asked for. -/
  asked : st'.asked = st.asked
  /-- The requests on their way. -/
  requests : st'.network.requests = st.network.requests
  /-- What the clients have left to do. -/
  script : st'.network.script = st.network.script
  /-- The number of the next request. -/
  nextRequest : st'.network.nextRequest = st.network.nextRequest
  /-- What other servers have open. -/
  openRequests : ∀ i, i ≠ s → st'.openRequests i = st.openRequests i
  /-- And what they have still to answer. -/
  unanswered : ∀ i, i ≠ layout.firstServer + s → st'.network.unanswered i = st.network.unanswered i
  /-- No request arrives at this server. -/
  unanswered_subset : st'.network.unanswered (layout.firstServer + s)
    ⊆ st.network.unanswered (layout.firstServer + s)

/-- Nothing is sent. -/
theorem SendsOnly.refl (layout : Layout) (s : ℕ) (st : DeploymentState) :
    SendsOnly layout s st st :=
  ⟨rfl, rfl, rfl, rfl, rfl, fun _ _ => rfl, fun _ _ => rfl, List.Subset.refl _⟩

/-- One packet after the other. -/
theorem SendsOnly.trans {s : ℕ} {st'' : DeploymentState} (h : SendsOnly layout s st st')
    (h' : SendsOnly layout s st' st'') : SendsOnly layout s st st'' :=
  ⟨h'.cluster.trans h.cluster, h'.asked.trans h.asked, h'.requests.trans h.requests,
    h'.script.trans h.script, h'.nextRequest.trans h.nextRequest,
    fun i hi => (h'.openRequests i hi).trans (h.openRequests i hi),
    fun i hi => (h'.unanswered i hi).trans (h.unanswered i hi),
    List.Subset.trans h'.unanswered_subset h.unanswered_subset⟩

/-- The answers after a server has sent packets: those before, and for every new one the response
that was sent and the request it belongs to. -/
def AnswersFrom (layout : Layout) (s : ℕ) (packets : List ServerPacket) (st st' : DeploymentState) :
    Prop :=
  ∀ number value, (number, value) ∈ st'.network.answers → (number, value) ∈ st.network.answers ∨
    ∃ request a key, ServerPacket.getResponse request value ∈ packets ∧
      (a, number, key) ∈ st.network.unanswered (layout.firstServer + s) ∧ request.key = cStr key

/-- A server has answered one of its requests. -/
def answered (layout : Layout) (s t : ℕ) (st : DeploymentState) (a number : ℕ)
    (request : GetRequest) (value : String) (rest : List (ℕ × ℕ × String)) : DeploymentState :=
  { st with
    network := answerRequest st.network (layout.firstServer + s) a number value rest
    openRequests := Function.update st.openRequests s ((st.openRequests s).erase (t, request.id)) }

/-- A response to an open request answers its entry. -/
theorem sendToClient_getResponse {s t : ℕ} {threads : ℕ → ServerState} {request : GetRequest}
    {value : String} (hnumbered : Numbered (threads t))
    (hentries : List.Forall₂ (IsEntry layout threads) (st.openRequests s)
      (st.network.unanswered (layout.firstServer + s)))
    (hopen : (t, request.id) ∈ st.openRequests s) (hknown : request ∈ (threads t).received) :
    ∃ i a number key rest, dequeueAt (st.network.unanswered (layout.firstServer + s)) i
        = some ((a, number, key), rest) ∧ request.key = cStr key ∧
      sendToClient layout s t st (.getResponse request value)
        = answered layout s t st a number request value rest ∧
      List.Forall₂ (IsEntry layout threads) ((st.openRequests s).erase (t, request.id)) rest := by
  obtain ⟨⟨a, number, key⟩, rest, hdequeue, ⟨request', hmem', hid', hclient, hkey⟩, hrest⟩ :=
    dequeueAt_of_forall₂ hentries hopen
  -- the thread has received one request with this number
  have hsame : request' = request :=
    List.inj_on_of_nodup_map (by rw [hnumbered.received]; exact List.nodup_range) hmem' hknown hid'
  subst hsame
  have hclient : layout.client request'.remoteIndex request'.remotePort = a := hclient
  refine ⟨_, a, number, key, rest, hdequeue, hkey, ?_, hrest⟩
  simp only [sendToClient, hdequeue, hclient, answered]

/-- Answering changes nothing else. -/
theorem sendsOnly_answered {s t i a number : ℕ} {key value : String} {request : GetRequest}
    {rest : List (ℕ × ℕ × String)}
    (hdequeue : dequeueAt (st.network.unanswered (layout.firstServer + s)) i
      = some ((a, number, key), rest)) :
    SendsOnly layout s st (answered layout s t st a number request value rest) where
  cluster := rfl
  asked := rfl
  requests := rfl
  script := rfl
  nextRequest := rfl
  openRequests := fun _ hi => Function.update_of_ne hi _ _
  unanswered := fun _ hi => Function.update_of_ne hi _ _
  unanswered_subset := by
    simp only [answered, answerRequest, Function.update_self]
    exact fun x hx => mem_of_mem_dequeueAt hdequeue hx

/-- What thread `t` of server `s` has done by sending packets. -/
structure SendOutcome (layout : Layout) (guard : NetworkState → NetworkLabel → Prop) (s t : ℕ)
    (threads : ℕ → ServerState) (packets : List ServerPacket) (st st' : DeploymentState) :
    Prop where
  /-- The network's server has given answers. -/
  simulates : Simulates (networkStep layout.numClients) guard st.network st'.network
  /-- Nothing else has changed. -/
  sendsOnly : SendsOnly layout s st st'
  /-- The answers are the responses sent. -/
  answers : AnswersFrom layout s packets st st'
  /-- No request is accounted for twice. -/
  nodup : (st'.openRequests s).Nodup
  /-- The network has the open requests in the same order. -/
  entries : List.Forall₂ (IsEntry layout threads) (st'.openRequests s)
    (st'.network.unanswered (layout.firstServer + s))
  /-- The requests responded to are no longer open. -/
  mem_iff : ∀ thread, thread ∈ st'.openRequests s ↔ thread ∈ st.openRequests s ∧
    ∀ id ∈ packets.filterMap responseId, thread ≠ (t, id)

/-- One more packet, which responds to no request. -/
theorem SendOutcome.skip {guard : NetworkState → NetworkLabel → Prop} {s t : ℕ}
    {threads : ℕ → ServerState} {packet : ServerPacket} {packets : List ServerPacket}
    (h : SendOutcome layout guard s t threads packets st st') (hpacket : responseId packet = none) :
    SendOutcome layout guard s t threads (packet :: packets) st st' := by
  refine { h with answers := ?_, mem_iff := ?_ }
  · intro number value hmem
    refine (h.answers number value hmem).imp_right ?_
    rintro ⟨request, a, key, hpacket, hentry⟩
    exact ⟨request, a, key, List.mem_cons_of_mem _ hpacket, hentry⟩
  · rw [List.filterMap_cons_none hpacket]
    exact h.mem_iff

/-- One more packet, which responds to an open request. -/
theorem SendOutcome.respond {guard : NetworkState → NetworkLabel → Prop} {s t i a number : ℕ}
    {key value : String} {request : GetRequest} {rest : List (ℕ × ℕ × String)}
    {threads : ℕ → ServerState} {packets : List ServerPacket}
    (h : SendOutcome layout guard s t threads packets
      (answered layout s t st a number request value rest) st')
    (hguard : guard st.network (.answer (layout.firstServer + s) i value))
    (hnodup : (st.openRequests s).Nodup) (hkey : request.key = cStr key)
    (hdequeue : dequeueAt (st.network.unanswered (layout.firstServer + s)) i
      = some ((a, number, key), rest)) :
    SendOutcome layout guard s t threads (.getResponse request value :: packets) st st' := by
  have hone : SendsOnly layout s st (answered layout s t st a number request value rest) :=
    sendsOnly_answered hdequeue
  refine { h with
    simulates := .head hguard ?_ h.simulates
    sendsOnly := hone.trans h.sendsOnly
    answers := ?_
    mem_iff := ?_ }
  · simp only [networkStep, hdequeue, answered]
  · intro number' value' hmem
    cases h.answers number' value' hmem with
    | inl hold =>
      simp only [answered, answerRequest, List.mem_append, List.mem_singleton,
        Prod.mk.injEq] at hold
      refine hold.imp_right ?_
      rintro ⟨rfl, rfl⟩
      exact ⟨request, a, key, List.mem_cons_self, mem_of_dequeueAt hdequeue, hkey⟩
    | inr hnew =>
      obtain ⟨request', a', key', hpacket, hentry, hkey'⟩ := hnew
      exact Or.inr ⟨request', a', key', List.mem_cons_of_mem _ hpacket,
        hone.unanswered_subset hentry, hkey'⟩
  · intro thread
    have hcons : (ServerPacket.getResponse request value :: packets).filterMap responseId
        = request.id :: packets.filterMap responseId := rfl
    rw [hcons, h.mem_iff, List.forall_mem_cons]
    simp only [answered, Function.update_self]
    rw [hnodup.mem_erase_iff]
    constructor
    · rintro ⟨⟨hne, hold⟩, hall⟩
      exact ⟨hold, hne, hall⟩
    · rintro ⟨hold, hne, hall⟩
      exact ⟨⟨hne, hold⟩, hall⟩

/-- **Packets are sent to clients**: the network's server answers requests that are open. -/
theorem sendOutcome_foldl {guard : NetworkState → NetworkLabel → Prop} {s t : ℕ}
    {threads : ℕ → ServerState} (hnumbered : Numbered (threads t)) (packets : List ServerPacket)
    (hguard : ∀ network i request value, ServerPacket.getResponse request value ∈ packets →
      guard network (.answer (layout.firstServer + s) i value))
    (hnodup : (st.openRequests s).Nodup)
    (hentries : List.Forall₂ (IsEntry layout threads) (st.openRequests s)
      (st.network.unanswered (layout.firstServer + s)))
    (hids : (packets.filterMap responseId).Nodup)
    (hopen : ∀ id ∈ packets.filterMap responseId, (t, id) ∈ st.openRequests s)
    (hknown : ∀ request value, ServerPacket.getResponse request value ∈ packets →
      request ∈ (threads t).received) :
    SendOutcome layout guard s t threads packets st
      (packets.foldl (sendToClient layout s t) st) := by
  induction packets generalizing st with
  | nil =>
    refine ⟨.refl _, .refl layout s st, fun _ _ h => Or.inl h, hnodup, hentries, ?_⟩
    exact fun thread => ⟨fun h => ⟨h, fun id hid => absurd hid List.not_mem_nil⟩, fun h => h.1⟩
  | cons packet packets ih =>
    have hguard' := fun network i request value hmem => hguard network i request value
      (List.mem_cons_of_mem packet hmem)
    have hknown' := fun request value hmem => hknown request value
      (List.mem_cons_of_mem packet hmem)
    rw [List.foldl_cons]
    cases packet with
    | putResponse | singletonPutRequest =>
      exact (ih hguard' hnodup hentries hids hopen hknown').skip rfl
    | getResponse request value =>
      have hcons : (ServerPacket.getResponse request value :: packets).filterMap responseId
          = request.id :: packets.filterMap responseId := rfl
      rw [hcons] at hids hopen
      obtain ⟨hfresh, hids⟩ := List.nodup_cons.mp hids
      obtain ⟨i, a, number, key, rest, hdequeue, hkey, hstep, hrest⟩ :=
        @sendToClient_getResponse layout st s t threads request value hnumbered hentries
          (hopen request.id List.mem_cons_self) (hknown request value List.mem_cons_self)
      rw [hstep]
      refine (ih hguard' ?_ ?_ hids ?_ hknown').respond (hguard _ i request value
        List.mem_cons_self) hnodup hkey hdequeue
      · simp only [answered, Function.update_self]
        exact hnodup.erase _
      · simp only [answered, answerRequest, Function.update_self]
        exact hrest
      · intro id hmem
        simp only [answered, Function.update_self]
        refine (List.mem_erase_of_ne ?_).mpr (hopen id (List.mem_cons_of_mem _ hmem))
        rintro heq
        cases heq
        exact hfresh hmem

/-! ## Steps of the servers -/

/-- Effects on caches and databases leave the threads alone. -/
theorem servers_foldl_applyToStores (s : ℕ) (effects : List ServerEffect) (cluster : ClusterState) :
    (effects.foldl (applyToStores s) cluster).servers = cluster.servers := by
  induction effects generalizing cluster with
  | nil => rfl
  | cons effect effects ih =>
    rw [List.foldl_cons, ih]
    cases effect <;> rfl

/-- A step of the cluster is one of a thread. -/
theorem servers_clusterStep {cluster cluster' : ClusterState} {s t : ℕ} {label : ServerLabel}
    (h : clusterStep c cluster (.server s t label) = some cluster') :
    ∃ st₁ effects, serverMove (c.serverConfig s t) (cluster.servers s t) label
      = some (st₁, effects) ∧
      cluster'.servers = update₂ cluster.servers s t (applyEffects st₁ effects) ∧
      (cluster'.servers s t).sent.drop (cluster.servers s t).sent.length
        = effects.filterMap packetOf := by
  simp only [clusterStep, Option.map_eq_some_iff] at h
  obtain ⟨⟨st₁, effects⟩, hmove, rfl⟩ := h
  refine ⟨st₁, effects, hmove, servers_foldl_applyToStores s effects _, ?_⟩
  rw [servers_foldl_applyToStores]
  show (update₂ cluster.servers s t (applyEffects st₁ effects) s t).sent.drop _ = _
  rw [update₂_self, sent_applyEffects, sent_serverMove hmove, List.drop_left]

/-- The servers of a deployment do not send their read buffers. -/
theorem sendsReadBuffer_eq (c : ClusterConfig) (s t : ℕ) :
    (c.serverConfig s t).sendsReadBuffer = false := by
  rw [ServerConfig.sendsReadBuffer, (c.asyncIndexing s t).rdmaAsync]
  simp

/-- **A thread acts and sends.** `st` is the state with the request already taken from its
connection, if the step receives one. -/
theorem viewOk_serverActs {guard : NetworkState → NetworkLabel → Prop} {s t : ℕ}
    {label : ServerLabel} {st₁ : ServerState} {effects : List ServerEffect}
    {cluster' : ClusterState}
    (hmove : serverMove (c.serverConfig s t) (st.cluster.servers s t) label = some (st₁, effects))
    (hcluster : cluster'.servers = update₂ st.cluster.servers s t (applyEffects st₁ effects))
    (hthreads : ∀ s t, ThreadOk (c.serverConfig s t) (st.cluster.servers s t))
    (hnodup : ∀ s, (st.openRequests s).Nodup)
    (hopen : ∀ s' t' id, (t', id) ∈ st.openRequests s' ↔ Open (st.cluster.servers s' t') id ∨
      (s' = s ∧ t' = t) ∧ id ∈ (receivedBy (st.cluster.servers s t) label).map GetRequest.id)
    (hentries : ∀ s', List.Forall₂ (IsEntry layout (cluster'.servers s')) (st.openRequests s')
      (st.network.unanswered (layout.firstServer + s')))
    (hguard : ∀ network i request value,
      ServerPacket.getResponse request value ∈ effects.filterMap packetOf →
        guard network (.answer (layout.firstServer + s) i value)) :
    ViewOk layout c ((effects.filterMap packetOf).foldl (sendToClient layout s t)
        { st with cluster := cluster' }) ∧
      SendOutcome layout guard s t (cluster'.servers s) (effects.filterMap packetOf)
        { st with cluster := cluster' }
        ((effects.filterMap packetOf).foldl (sendToClient layout s t)
          { st with cluster := cluster' }) := by
  have hthreads' : ∀ s' t', ThreadOk (c.serverConfig s' t') (cluster'.servers s' t') := by
    intro s' t'
    rw [hcluster, update₂_apply]
    split
    · next hst =>
      rw [hst.1, hst.2]
      exact (hthreads s t).step hmove
    · exact hthreads s' t'
  have hself : cluster'.servers s t = applyEffects st₁ effects := by rw [hcluster, update₂_self]
  obtain ⟨hids, hcloses⟩ := (hthreads s t).closes (sendsReadBuffer_eq c s t) hmove
  -- what the step responds to was open or has just been received
  have hwas : ∀ id ∈ closedBy effects, (t, id) ∈ st.openRequests s := by
    intro id hid
    obtain ⟨hlt, hzero⟩ := hcloses id hid
    rw [hopen]
    rw [(applyEffects_history st₁ effects).1, received_serverMove hmove, List.length_append] at hlt
    by_cases hold : id < (st.cluster.servers s t).received.length
    · exact Or.inl ⟨hold, hzero⟩
    · refine Or.inr ⟨⟨rfl, rfl⟩, ?_⟩
      cases label with
      | receiveGet remoteIndex remotePort key answers =>
        simp only [receivedBy, List.length_singleton] at hlt
        have heq : id = (st.cluster.servers s t).received.length := by omega
        rw [heq]
        exact List.mem_cons_self
      | _ => simp only [receivedBy, List.length_nil] at hlt; omega
  have houtcome : SendOutcome layout guard s t (cluster'.servers s) (effects.filterMap packetOf)
      { st with cluster := cluster' } _ :=
    @sendOutcome_foldl layout { st with cluster := cluster' } guard s t _ (hthreads' s t).numbered
      (effects.filterMap packetOf) hguard (hnodup s) (hentries s) hids hwas (by
        intro request value hmem
        rw [hself, (applyEffects_history st₁ effects).1]
        exact (known_serverMove (hthreads s t).known hmove).2 request value hmem)
  refine ⟨?_, houtcome⟩
  have hsends := houtcome.sendsOnly
  constructor
  case threads => rw [hsends.cluster]; exact hthreads'
  case nodup =>
    intro s'
    by_cases hs : s' = s
    · rw [hs]; exact houtcome.nodup
    · rw [hsends.openRequests s' hs]; exact hnodup s'
  case open_iff =>
    intro s' t' id
    rw [hsends.cluster]
    show _ ↔ Open (cluster'.servers s' t') id
    by_cases hs : s' = s
    · subst hs
      rw [houtcome.mem_iff]
      show (t', id) ∈ st.openRequests s' ∧ _ ↔ _
      rw [hopen]
      by_cases ht : t' = t
      · subst ht
        rw [hself, (hthreads s' t').open_serverMove (sendsReadBuffer_eq c s' t') hmove]
        simp only [true_and, closedBy, ne_eq, Prod.mk.injEq]
        refine and_congr_right fun _ => ?_
        constructor
        · exact fun h hmem => h id hmem rfl
        · rintro h id' hmem rfl
          exact h hmem
      · rw [hcluster, update₂_of_ne _ _ (Or.inr ht)]
        constructor
        · rintro ⟨hopen | ⟨⟨-, heq⟩, -⟩, -⟩
          · exact hopen
          · exact absurd heq ht
        · intro h
          refine ⟨Or.inl h, fun id' _ heq => ht ?_⟩
          cases heq
          rfl
    · rw [hsends.openRequests s' hs, hcluster, update₂_of_ne _ _ (Or.inl hs)]
      show (t', id) ∈ st.openRequests s' ↔ _
      rw [hopen]
      constructor
      · rintro (h | ⟨⟨heq, -⟩, -⟩)
        · exact h
        · exact absurd heq hs
      · exact Or.inl
  case entries =>
    intro s'
    rw [hsends.cluster]
    by_cases hs : s' = s
    · rw [hs]; exact houtcome.entries
    · rw [hsends.openRequests s' hs, hsends.unanswered _ (by omega)]
      exact hentries s'

/-! ## The moves of a step -/

/-- What a step can do: one constructor for every branch of `deploymentStep`. -/
inductive DeploymentMove (layout : Layout) (c : ClusterConfig) (st : DeploymentState) :
    DeploymentLabel → DeploymentState → Prop
  /-- A client or a connection. -/
  | client {l : NetworkLabel} {network : NetworkState} (hl : atServer l = false)
      (hs : networkStep layout.numClients st.network l = some network) :
      DeploymentMove layout c st (.client l)
        { st with network := network, asked := st.asked ++ askedBy st.network l }
  /-- A thread receives a get request. -/
  | receiveGet {s t a request : ℕ} {key : String} {rest : List (ℕ × String)} {answers : GetAnswers}
      {cluster : ClusterState} {st₁ : ServerState} {effects : List ServerEffect}
      (hrequests : st.network.requests a (layout.firstServer + s) = (request, key) :: rest)
      (hstep : clusterStep c st.cluster (.server s t
        (.receiveGet (layout.machineIndex a) (layout.port a) key answers)) = some cluster)
      (hmove : serverMove (c.serverConfig s t) (st.cluster.servers s t)
        (.receiveGet (layout.machineIndex a) (layout.port a) key answers) = some (st₁, effects))
      (hservers : cluster.servers = update₂ st.cluster.servers s t (applyEffects st₁ effects)) :
      DeploymentMove layout c st (.receiveGet s t a answers)
        ((effects.filterMap packetOf).foldl (sendToClient layout s t)
          { reachServer layout st s t a request key rest with cluster := cluster })
  /-- Another step of a thread. -/
  | server {s t : ℕ} {label : ServerLabel} {cluster : ClusterState} {st₁ : ServerState}
      {effects : List ServerEffect} (hlabel : receivesGet label = false)
      (hstep : clusterStep c st.cluster (.server s t label) = some cluster)
      (hmove : serverMove (c.serverConfig s t) (st.cluster.servers s t) label = some (st₁, effects))
      (hservers : cluster.servers = update₂ st.cluster.servers s t (applyEffects st₁ effects)) :
      DeploymentMove layout c st (.server s t label)
        ((effects.filterMap packetOf).foldl (sendToClient layout s t)
          { st with cluster := cluster })
  /-- A slot gets a new content. -/
  | writeSlot {s : ℕ} {offset : UInt64} {kv : RDMACacheIndexKeyValue} {cluster : ClusterState}
      (hstep : clusterStep c st.cluster (.writeSlot s offset kv) = some cluster)
      (hservers : cluster.servers = st.cluster.servers) :
      DeploymentMove layout c st (.writeSlot s offset kv) { st with cluster := cluster }

/-- Every step is one of the moves. -/
theorem deploymentMove_of_step {label : DeploymentLabel}
    (hs : deploymentStep layout c st label = some st') : DeploymentMove layout c st label st' := by
  cases label with
  | client l =>
    rw [deploymentStep] at hs
    split at hs
    · cases hs
    · next hl =>
      obtain ⟨network, hstep, rfl⟩ := Option.map_eq_some_iff.mp hs
      exact .client (Bool.eq_false_of_not_eq_true hl) hstep
  | receiveGet s t a answers =>
    rw [deploymentStep] at hs
    split at hs
    · next request key rest hrequests =>
      obtain ⟨cluster, hstep, rfl⟩ := Option.map_eq_some_iff.mp hs
      obtain ⟨st₁, effects, hmove, hservers, hsent⟩ := servers_clusterStep hstep
      have hsame : (reachServer layout st s t a request key rest).cluster = st.cluster := rfl
      rw [hsame] at hsent ⊢
      rw [hsent]
      exact .receiveGet hrequests hstep hmove hservers
    · cases hs
  | server s t label =>
    rw [deploymentStep] at hs
    split at hs
    · cases hs
    · next hlabel =>
      obtain ⟨cluster, hstep, rfl⟩ := Option.map_eq_some_iff.mp hs
      obtain ⟨st₁, effects, hmove, hservers, hsent⟩ := servers_clusterStep hstep
      rw [hsent]
      exact .server (Bool.eq_false_of_not_eq_true hlabel) hstep hmove hservers
  | writeSlot s offset kv =>
    rw [deploymentStep, Option.map_eq_some_iff] at hs
    obtain ⟨cluster, hstep, rfl⟩ := hs
    refine .writeSlot hstep ?_
    cases hstep
    rfl

/-- The entries stay right when the threads receive more requests. -/
theorem IsEntry.mono {threads threads' : ℕ → ServerState} {thread : ℕ × ℕ} {entry : ℕ × ℕ × String}
    (h : IsEntry layout threads thread entry)
    (hsub : ∀ t, (threads t).received ⊆ (threads' t).received) :
    IsEntry layout threads' thread entry := by
  obtain ⟨request, hmem, hrest⟩ := h
  exact ⟨request, hsub _ hmem, hrest⟩

/-- A step of a thread adds to what the threads have received. -/
theorem received_subset {cluster cluster' : ClusterState} {s t : ℕ} {label : ServerLabel}
    {config : ServerConfig} {st₁ : ServerState} {effects : List ServerEffect}
    (hmove : serverMove config (cluster.servers s t) label = some (st₁, effects))
    (hservers : cluster'.servers = update₂ cluster.servers s t (applyEffects st₁ effects))
    (s' t' : ℕ) :
    (cluster.servers s' t').received ⊆ (cluster'.servers s' t').received := by
  rw [hservers, update₂_apply]
  split
  · next hst =>
    rw [hst.1, hst.2, (applyEffects_history st₁ effects).1, received_serverMove hmove]
    exact List.subset_append_left _ _
  · exact List.Subset.refl _

/-- A step in which a thread receives no get opens nothing. -/
theorem receivedBy_eq_nil {st : ServerState} {label : ServerLabel} (h : receivesGet label = false) :
    receivedBy st label = [] := by
  cases label <;> first | rfl | cases h

/-- A thread receives a request: the network's server does, and answers what the thread responds
to. -/
theorem ViewOk.receiveGet (guard : NetworkState → NetworkLabel → Prop) {s t a request : ℕ}
    {key : String} {rest : List (ℕ × String)} {answers : GetAnswers} {cluster : ClusterState}
    {st₁ : ServerState} {effects : List ServerEffect} (h : ViewOk layout c st)
    (hmove : serverMove (c.serverConfig s t) (st.cluster.servers s t)
      (.receiveGet (layout.machineIndex a) (layout.port a) key answers) = some (st₁, effects))
    (hservers : cluster.servers = update₂ st.cluster.servers s t (applyEffects st₁ effects))
    (hanswer : ∀ network i request value,
      ServerPacket.getResponse request value ∈ effects.filterMap packetOf →
        guard network (.answer (layout.firstServer + s) i value)) :
    ViewOk layout c ((effects.filterMap packetOf).foldl (sendToClient layout s t)
        { reachServer layout st s t a request key rest with cluster := cluster }) ∧
      SendOutcome layout guard s t (cluster.servers s) (effects.filterMap packetOf)
        { reachServer layout st s t a request key rest with cluster := cluster }
        ((effects.filterMap packetOf).foldl (sendToClient layout s t)
          { reachServer layout st s t a request key rest with cluster := cluster }) := by
  have hfresh : ¬ (t, (st.cluster.servers s t).received.length) ∈ st.openRequests s :=
    fun hmem => Nat.lt_irrefl _ ((h.open_iff s t _).mp hmem).1
  have hnodup : ∀ s', ((reachServer layout st s t a request key rest).openRequests s').Nodup := by
    intro s'
    simp only [reachServer]
    by_cases hs : s' = s
    · subst hs
      rw [Function.update_self, ← List.concat_eq_append]
      exact (h.nodup s').concat hfresh
    · rw [Function.update_of_ne hs]
      exact h.nodup s'
  have hopen : ∀ s' t' id,
      (t', id) ∈ (reachServer layout st s t a request key rest).openRequests s' ↔
        Open (st.cluster.servers s' t') id ∨ (s' = s ∧ t' = t) ∧
          id ∈ (receivedBy (st.cluster.servers s t) (.receiveGet (layout.machineIndex a)
            (layout.port a) key answers)).map GetRequest.id := by
    intro s' t' id
    simp only [reachServer, receivedBy, List.map_cons, List.map_nil, List.mem_singleton]
    by_cases hs : s' = s
    · subst hs
      rw [Function.update_self, List.mem_append, List.mem_singleton, h.open_iff, Prod.mk.injEq]
      simp
    · rw [Function.update_of_ne hs, h.open_iff]
      simp [hs]
  have hentries : ∀ s', List.Forall₂ (IsEntry layout (cluster.servers s'))
      ((reachServer layout st s t a request key rest).openRequests s')
      ((reachServer layout st s t a request key rest).network.unanswered
        (layout.firstServer + s')) := by
    intro s'
    have hold : List.Forall₂ (IsEntry layout (cluster.servers s')) (st.openRequests s')
        (st.network.unanswered (layout.firstServer + s')) :=
      (h.entries s').imp fun _ _ hentry => hentry.mono (received_subset hmove hservers s')
    by_cases hs : s' = s
    · subst hs
      simp only [reachServer, receiveRequest, Function.update_self]
      refine List.rel_append hold (.cons ?_ .nil)
      refine ⟨⟨(st.cluster.servers s' t).received.length, layout.machineIndex a, layout.port a,
        cStr key⟩, ?_, rfl, layout.client_eq a, rfl⟩
      rw [hservers, update₂_self, (applyEffects_history st₁ effects).1, received_serverMove hmove]
      exact List.mem_append_right _ List.mem_cons_self
    · simp only [reachServer, receiveRequest, Function.update_of_ne hs,
        Function.update_of_ne (show layout.firstServer + s' ≠ layout.firstServer + s by omega)]
      exact hold
  exact @viewOk_serverActs layout c (reachServer layout st s t a request key rest) guard s t _ st₁
    effects cluster hmove hservers h.threads hnodup hopen hentries hanswer

/-- Another step of a thread: the network's server answers what the thread responds to. -/
theorem ViewOk.server (guard : NetworkState → NetworkLabel → Prop) {s t : ℕ} {label : ServerLabel}
    {cluster : ClusterState} {st₁ : ServerState} {effects : List ServerEffect}
    (h : ViewOk layout c st) (hlabel : receivesGet label = false)
    (hmove : serverMove (c.serverConfig s t) (st.cluster.servers s t) label = some (st₁, effects))
    (hservers : cluster.servers = update₂ st.cluster.servers s t (applyEffects st₁ effects))
    (hanswer : ∀ network i request value,
      ServerPacket.getResponse request value ∈ effects.filterMap packetOf →
        guard network (.answer (layout.firstServer + s) i value)) :
    ViewOk layout c ((effects.filterMap packetOf).foldl (sendToClient layout s t)
        { st with cluster := cluster }) ∧
      SendOutcome layout guard s t (cluster.servers s) (effects.filterMap packetOf)
        { st with cluster := cluster }
        ((effects.filterMap packetOf).foldl (sendToClient layout s t)
          { st with cluster := cluster }) := by
  have hopen : ∀ s' t' id, (t', id) ∈ st.openRequests s' ↔ Open (st.cluster.servers s' t') id ∨
      (s' = s ∧ t' = t) ∧
        id ∈ (receivedBy (st.cluster.servers s t) label).map GetRequest.id := by
    intro s' t' id
    rw [receivedBy_eq_nil hlabel, h.open_iff]
    simp
  exact viewOk_serverActs hmove hservers h.threads h.nodup hopen
    (fun s' => (h.entries s').imp fun _ _ hentry =>
      hentry.mono (received_subset hmove hservers s')) hanswer

/-- A client, a connection or a slot: no request is opened or closed. -/
theorem ViewOk.congr {cluster : ClusterState} {network : NetworkState} {asked : List String}
    (h : ViewOk layout c st) (hservers : cluster.servers = st.cluster.servers)
    (hunanswered : network.unanswered = st.network.unanswered) :
    ViewOk layout c
      { st with network := network, cluster := cluster, asked := asked } where
  threads := by simp only [hservers]; exact h.threads
  nodup := h.nodup
  open_iff := by simp only [hservers]; exact h.open_iff
  entries := by simp only [hservers, hunanswered]; exact h.entries

/-- The clients and connections leave the servers' requests alone. -/
theorem unanswered_of_client {N : ℕ} {network network' : NetworkState} {l : NetworkLabel}
    (hl : atServer l = false) (hs : networkStep N network l = some network') :
    network'.unanswered = network.unanswered := by
  cases networkMove_of_step hs with
  | serverReceive | answer => cases hl
  | _ => rfl

/-- A request that a thread receives is received by the network's server. -/
theorem networkStep_reachServer (t : ℕ) {s a request : ℕ} {key : String} {rest : List (ℕ × String)}
    (hrequests : st.network.requests a (layout.firstServer + s) = (request, key) :: rest) :
    networkStep layout.numClients st.network (.serverReceive (layout.firstServer + s) a)
      = some (reachServer layout st s t a request key rest).network := by
  simp only [networkStep, hrequests, reachServer]

/-- Every step is a run of the network. -/
theorem ViewOk.step {label : DeploymentLabel} (h : ViewOk layout c st)
    (hs : DeploymentMove layout c st label st') :
    ViewOk layout c st' ∧
      Simulates (networkStep layout.numClients) (fun _ _ => True) st.network st'.network := by
  cases hs with
  | client hl hstep => exact ⟨h.congr rfl (unanswered_of_client hl hstep), .single trivial hstep⟩
  | @receiveGet s t a request key rest answers cluster st₁ effects hrequests hstep hmove hservers =>
    obtain ⟨hview, houtcome⟩ := h.receiveGet (fun _ _ => True) hmove hservers
      fun _ _ _ _ _ => trivial
    exact ⟨hview, .head trivial (networkStep_reachServer t hrequests) houtcome.simulates⟩
  | server hlabel hstep hmove hservers =>
    obtain ⟨hview, houtcome⟩ := h.server (fun _ _ => True) hlabel hmove hservers
      fun _ _ _ _ _ => trivial
    exact ⟨hview, houtcome.simulates⟩
  | writeSlot hstep hservers => exact ⟨h.congr hservers rfl, .refl _⟩

/-- **The servers refine the network's.** In every run of the system, whatever caches, databases,
index replicas and slots answer, the clients and connections are in a state that the network model
reaches, with servers that answer each request once. -/
theorem deployment_refines_network (layout : Layout) (dataset : Dataset c)
    (ops : ℕ → List (String × ℕ))
    (h : Reachable (deploymentStep layout c) (.initial layout dataset ops) st) :
    Reachable (networkStep layout.numClients) (.initial (clientScript layout.numClients ops))
      st.network := by
  refine (h.simulate DeploymentState.network (I := ViewOk layout c) (viewOk_initial dataset ops)
    ?_).2
  intro s l s' hview _ hs
  exact hview.step (deploymentMove_of_step hs)

/-- One client machine in front of the servers of a cluster. -/
def oneClient : Layout where
  numClients := 1
  firstServer := 1
  machineIndex := fun a => a
  port := fun _ => 9000
  client := fun machineIndex _ => machineIndex
  client_eq := fun _ => rfl

/-- Its first client gets key 1 from the first server. -/
def getOne (a : ℕ) : List (String × ℕ) := if a = 0 then [("1", 1)] else []

/-- The get is answered from a slot of another server. -/
def remoteRun : List DeploymentLabel :=
  [.client (.start 0), .client (.sendSync 0), .client (.sendSync 0), .client (.finishSync 0),
    .client (.start 0),
    .receiveGet 0 0 0 ⟨false, "", fun _ => 0, true, "", ⟨"", none⟩⟩,
    .writeSlot 1 0 ⟨1, "A"⟩,
    .server 0 0 (.slotReadCompleted 0 ⟨1, "A"⟩ ⟨none, false, ⟨"", none⟩⟩),
    .server 0 0 (.sendRdmaGetResponse 0),
    .client (.deliverResponse 1 0), .client (.receive 0)]

/-- The network of that run is one of the network model. -/
theorem deployment_refines_network_remote : ∃ st,
    runLabels (deploymentStep oneClient indexingCluster)
      (.initial oneClient onePair getOne) remoteRun
      = some st ∧ Reachable (networkStep 1) (.initial (clientScript 1 getOne)) st.network :=
  ⟨_, rfl, deployment_refines_network oneClient onePair getOne
    (reachable_of_runLabels remoteRun rfl)⟩

end TwigKV.Deployment
