import TwigKV.Deployment.ClientView

/-! # What the clients get

Clients, connections and servers together: as long as synchronisation requests come after the
receiver's replies, every get of every client returns a value that was stored under its own key at
some time, however stale the replicas are and whatever path through caches, other servers and
databases the value takes (`gets_return_stored_values`). This is about gets of keys of the dataset,
and about values of `VALUE_SIZE` bytes without NUL: others are cut on the way. When nobody sends
puts, the value returned is that of the dataset, so that `execute_operations` counts no wrong value
(`no_wrong_values`). -/

namespace TwigKV.Deployment

open ClientSync Server Cluster

variable {layout : Layout} {c : ClusterConfig} {st st' : DeploymentState}

/-- The numbers of requests stand for the keys they ask for, and the answers given are values stored
under them. -/
structure KeysOk (c : ClusterConfig) (asked : List String) (network : NetworkState)
    (stored : List (String × String)) : Prop where
  /-- Every request sent has a number. -/
  length_eq : asked.length = network.nextRequest
  /-- The clients ask for keys of the dataset. -/
  script : ∀ a key server, ClientAction.get key server ∈ network.script a → IsKey c key
  /-- Requests on their way. -/
  requests : ∀ a s number key, (number, key) ∈ network.requests a s →
    asked[number]? = some key ∧ IsKey c key
  /-- Requests at the servers. -/
  unanswered : ∀ s a number key, (a, number, key) ∈ network.unanswered s →
    asked[number]? = some key ∧ IsKey c key
  /-- Answers. -/
  answers : ∀ number value, (number, value) ∈ network.answers →
    ∃ key, asked[number]? = some key ∧ (key, value) ∈ stored

/-- Nothing has been asked for at the start. -/
theorem keysOk_initial {ops : ℕ → List (String × ℕ)} (hops : ∀ a, ∀ op ∈ ops a, IsKey c op.1)
    (numClients : ℕ) (stored : List (String × String)) :
    KeysOk c [] (.initial (clientScript numClients ops)) stored where
  length_eq := rfl
  script := by
    intro a key server hmem
    have hget : ClientAction.get key server ∈ getActions (ops a) := by
      change ClientAction.get key server ∈ clientScript numClients ops a at hmem
      unfold clientScript at hmem
      split at hmem
      · rw [List.mem_cons, List.mem_append, List.mem_singleton] at hmem
        exact (hmem.resolve_left ClientAction.noConfusion).resolve_right ClientAction.noConfusion
      · exact hmem
    obtain ⟨op, hop, heq⟩ := List.mem_map.mp hget
    cases heq
    exact hops a op hop
  requests := fun _ _ _ _ h => absurd h List.not_mem_nil
  unanswered := fun _ _ _ _ h => absurd h List.not_mem_nil
  answers := fun _ _ h => absurd h List.not_mem_nil

/-- More keys are asked for. -/
theorem getElem?_append_of_some {asked more : List String} {number : ℕ} {key : String}
    (h : asked[number]? = some key) : (asked ++ more)[number]? = some key := by
  rw [List.getElem?_append_left (List.getElem?_eq_some_iff.mp h).1]
  exact h

/-- A step of a client or a connection. -/
theorem KeysOk.client {asked : List String} {network network' : NetworkState}
    {stored : List (String × String)} {l : NetworkLabel} {numClients : ℕ}
    (h : KeysOk c asked network stored) (hl : atServer l = false)
    (hs : networkStep numClients network l = some network') :
    KeysOk c (asked ++ askedBy network l) network' stored := by
  have hmore : KeysOk c (asked ++ askedBy network l)
      { network with nextRequest := (asked ++ askedBy network l).length } stored := by
    refine ⟨rfl, h.script, ?_, ?_, ?_⟩
    · exact fun a s number key hmem => (h.requests a s number key hmem).imp_left
        getElem?_append_of_some
    · exact fun s a number key hmem => (h.unanswered s a number key hmem).imp_left
        getElem?_append_of_some
    · intro number value hmem
      obtain ⟨key, hkey, hstored⟩ := h.answers number value hmem
      exact ⟨key, getElem?_append_of_some hkey, hstored⟩
  cases networkMove_of_step hs with
  | serverReceive | answer => cases hl
  | @beginSync a rest hpc hscript =>
    have hasked : askedBy network (.start a) = [] := by simp only [askedBy, hpc, hscript]
    rw [hasked, List.append_nil]
    refine { h with script := ?_ }
    intro a' key server hmem
    simp only [beginSync] at hmem
    by_cases ha : a' = a
    · subst ha
      rw [Function.update_self] at hmem
      refine h.script a' key server ?_
      rw [hscript]
      exact List.mem_cons_of_mem _ hmem
    · rw [Function.update_of_ne ha] at hmem
      exact h.script a' key server hmem
  | @beginGet a server key rest hpc hscript =>
    have hasked : askedBy network (.start a) = [key] := by simp only [askedBy, hpc, hscript]
    rw [hasked] at hmore ⊢
    have hkey : IsKey c key := by
      refine h.script a key server ?_
      rw [hscript]
      exact List.mem_cons_self
    refine { hmore with length_eq := ?_, script := ?_, requests := ?_ }
    · rw [List.length_append, List.length_singleton, h.length_eq]
      rfl
    · intro a' key' server' hmem
      simp only [beginGet] at hmem
      by_cases ha : a' = a
      · subst ha
        rw [Function.update_self] at hmem
        refine h.script a' key' server' ?_
        rw [hscript]
        exact List.mem_cons_of_mem _ hmem
      · rw [Function.update_of_ne ha] at hmem
        exact h.script a' key' server' hmem
    · intro a' s number key' hmem
      simp only [beginGet, update₂_apply] at hmem
      split at hmem
      · rw [List.mem_append, List.mem_singleton, Prod.mk.injEq] at hmem
        cases hmem with
        | inl hold => exact hmore.requests _ _ number key' hold
        | inr hnew =>
          rw [hnew.1, hnew.2, ← h.length_eq]
          exact ⟨List.getElem?_concat_length, hkey⟩
      · exact hmore.requests a' s number key' hmem
  | skipSelf | sendSyncTo | beginWait | finishGet | takeSync | failSync | endSync | deliverSync
  | deliverResponse =>
    simp only [askedBy, List.append_nil]
    exact { h with }

/-- A request reaches a server. -/
theorem KeysOk.reachServer {s t a request : ℕ} {key : String} {rest : List (ℕ × String)}
    {stored : List (String × String)} (h : KeysOk c st.asked st.network stored)
    (hrequests : st.network.requests a (layout.firstServer + s) = (request, key) :: rest) :
    KeysOk c st.asked (reachServer layout st s t a request key rest).network stored := by
  have hnew := h.requests a (layout.firstServer + s) request key
    (by rw [hrequests]; exact List.mem_cons_self)
  refine { h with requests := ?_, unanswered := ?_ }
  · intro a' s' number key' hmem
    simp only [Deployment.reachServer, receiveRequest, update₂_apply] at hmem
    split at hmem
    · next hsame =>
      refine h.requests a (layout.firstServer + s) number key' ?_
      rw [hrequests]
      exact List.mem_cons_of_mem _ hmem
    · exact h.requests a' s' number key' hmem
  · intro s' a' number key' hmem
    simp only [Deployment.reachServer, receiveRequest] at hmem
    by_cases hs : s' = layout.firstServer + s
    · subst hs
      rw [Function.update_self, List.mem_append, List.mem_singleton, Prod.mk.injEq,
        Prod.mk.injEq] at hmem
      cases hmem with
      | inl hold => exact h.unanswered _ a' number key' hold
      | inr hsame =>
        rw [hsame.2.1, hsame.2.2]
        exact hnew
    · rw [Function.update_of_ne hs] at hmem
      exact h.unanswered s' a' number key' hmem

/-- A server sends packets: its responses are values stored under the keys of their requests. -/
theorem KeysOk.sends {s : ℕ} {packets : List ServerPacket} {stored stored' : List (String × String)}
    (h : KeysOk c st.asked st.network stored) (hsub : stored ⊆ stored')
    (hsends : SendsOnly layout s st st') (hanswers : AnswersFrom layout s packets st st')
    (hpackets : ∀ request value, ServerPacket.getResponse request value ∈ packets →
      (request.key, value) ∈ stored') : KeysOk c st'.asked st'.network stored' := by
  rw [hsends.asked]
  constructor
  case length_eq => rw [hsends.nextRequest]; exact h.length_eq
  case script => rw [hsends.script]; exact h.script
  case requests => rw [hsends.requests]; exact h.requests
  case unanswered =>
    intro x a number key hmem
    by_cases hx : x = layout.firstServer + s
    · subst hx
      exact h.unanswered _ a number key (hsends.unanswered_subset hmem)
    · rw [hsends.unanswered x hx] at hmem
      exact h.unanswered x a number key hmem
  case answers =>
    intro number value hmem
    cases hanswers number value hmem with
    | inl hold =>
      obtain ⟨key, hkey, hstored⟩ := h.answers number value hold
      exact ⟨key, hkey, hsub hstored⟩
    | inr hnew =>
      obtain ⟨request, a, key, hpacket, hentry, hrequest⟩ := hnew
      obtain ⟨hasked, hkey⟩ := h.unanswered _ a number key hentry
      refine ⟨key, hasked, ?_⟩
      rw [← hkey.cStr_eq, ← hrequest]
      exact hpackets request value hpacket

/-! ## Steps -/

/-- What holds along a run. -/
structure DeploymentOk (layout : Layout) (c : ClusterConfig) (st : DeploymentState) : Prop where
  /-- The open requests. -/
  view : ViewOk layout c st
  /-- The servers. -/
  cluster : CStringClusterOk c st.cluster
  /-- Keys and values. -/
  keys : KeysOk c st.asked st.network st.cluster.stored

/-- Pairs that have been stored stay stored. -/
theorem stored_subset_recordPut (cluster : ClusterState) (label : ServerLabel) :
    cluster.stored ⊆ (recordPut cluster label).stored := by
  cases label with
  | receivePut => exact List.subset_append_left _ _
  | _ => exact List.Subset.refl _

/-- A thread responds with a stored value of the key asked for, without a NUL. -/
theorem stored_of_response {cluster : ClusterState} {s t : ℕ} {label : ServerLabel}
    {st₁ : ServerState} {effects : List ServerEffect} (h : CStringClusterOk c cluster)
    (henv : CStringEnvironment c cluster (.server s t label))
    (hmove : serverMove (c.serverConfig s t) (cluster.servers s t) label = some (st₁, effects))
    {request : GetRequest} {value : String}
    (hmem : ServerPacket.getResponse request value ∈ effects.filterMap packetOf) :
    (request.key, value) ∈ (recordPut cluster label).stored ∧ NulFree value := by
  have hput := h.recordPut henv
  have hserver := hput.servers s t
  rw [recordPut_servers] at hserver
  obtain ⟨-, heffects⟩ := serverOk_serverMove (c.asyncIndexing s t) hserver
    (h.answersOk henv.1 (h.receivesCString henv)) hmove
  obtain ⟨effect, heffect, hpacket⟩ := List.mem_filterMap.mp hmem
  have hstored : (request.key, value) ∈ (recordPut cluster label).stored := by
    have hok := heffects effect heffect
    cases effect with
    | send packet =>
      cases hpacket
      exact hok
    | _ => cases hpacket
  exact ⟨hstored, hput.nulFree _ hstored⟩

/-- The environment of the deployment is one of the cluster: clients ask for keys of the dataset. -/
theorem DeploymentOk.environmentOk (h : DeploymentOk layout c st) {s t a request : ℕ} {key : String}
    {rest : List (ℕ × String)} {answers : GetAnswers}
    (henv : DeploymentEnvironment layout c st (.receiveGet s t a answers))
    (hrequests : st.network.requests a (layout.firstServer + s) = (request, key) :: rest) :
    CStringEnvironment c st.cluster
      (.server s t (.receiveGet (layout.machineIndex a) (layout.port a) key answers)) := by
  have hkey := (h.keys.requests a _ request key (by rw [hrequests]; exact List.mem_cons_self)).2
  refine ⟨⟨?_, henv request key rest hrequests⟩, trivial⟩
  rw [hkey.cStr_eq]
  exact hkey

/-- A thread acts and sends what it has stored. -/
theorem DeploymentOk.acts {before : DeploymentState} {s t : ℕ} {label : ServerLabel}
    {cluster : ClusterState} {effects : List ServerEffect}
    (hview : ViewOk layout c st')
    (houtcome : SendOutcome layout (SyncsAfterReplies layout.numClients) s t (cluster.servers s)
      (effects.filterMap packetOf) { before with cluster := cluster } st')
    (hkeys : KeysOk c before.asked before.network before.cluster.stored)
    (hcluster : CStringClusterOk c cluster)
    (hstep : clusterStep c before.cluster (.server s t label) = some cluster)
    (hpackets : ∀ request value,
      ServerPacket.getResponse request value ∈ effects.filterMap packetOf →
        (request.key, value) ∈ (recordPut before.cluster label).stored) :
    DeploymentOk layout c st' := by
  have hsub := stored_subset_recordPut before.cluster label
  rw [← stored_clusterStep hstep] at hsub hpackets
  have hkeys' := @KeysOk.sends layout c { before with cluster := cluster } st' s _ _ _ hkeys hsub
    houtcome.sendsOnly houtcome.answers hpackets
  have hsame : st'.cluster = cluster := houtcome.sendsOnly.cluster
  refine ⟨hview, ?_, ?_⟩
  · rw [hsame]
    exact hcluster
  · rw [hsame]
    exact hkeys'

/-- Every step keeps the invariant and is a run of the network model in which synchronisation
requests come after replies. -/
theorem DeploymentOk.step {label : DeploymentLabel} (h : DeploymentOk layout c st)
    (henv : DeploymentEnvironment layout c st label)
    (hs : deploymentStep layout c st label = some st') :
    DeploymentOk layout c st' ∧ Simulates (networkStep layout.numClients)
      (SyncsAfterReplies layout.numClients) st.network st'.network := by
  cases deploymentMove_of_step hs with
  | client hl hstep =>
    exact ⟨⟨h.view.congr rfl (unanswered_of_client hl hstep), h.cluster, h.keys.client hl hstep⟩,
      .single henv hstep⟩
  | @receiveGet s t a request key rest answers cluster st₁ effects hrequests hstep hmove hservers =>
    have henv' := h.environmentOk henv hrequests
    have hguard : SyncsAfterReplies layout.numClients st.network
      (.serverReceive (layout.firstServer + s) a) := trivial
    obtain ⟨hview, houtcome⟩ := h.view.receiveGet (SyncsAfterReplies layout.numClients) hmove
      hservers
      fun _ _ _ _ hmem => (stored_of_response h.cluster henv' hmove hmem).2
    exact ⟨.acts hview houtcome (h.keys.reachServer hrequests) (h.cluster.step henv' hstep) hstep
        fun _ _ hmem => (stored_of_response h.cluster henv' hmove hmem).1,
      .head hguard (networkStep_reachServer t hrequests) houtcome.simulates⟩
  | server hlabel hstep hmove hservers =>
    obtain ⟨hview, houtcome⟩ := h.view.server (SyncsAfterReplies layout.numClients) hlabel hmove
      hservers
      fun _ _ _ _ hmem => (stored_of_response h.cluster henv hmove hmem).2
    exact ⟨.acts hview houtcome h.keys (h.cluster.step henv hstep) hstep
        fun _ _ hmem => (stored_of_response h.cluster henv hmove hmem).1,
      houtcome.simulates⟩
  | @writeSlot s offset kv cluster hstep hservers =>
    have henv' : CStringEnvironment c st.cluster (.writeSlot s offset kv) := henv
    have hstored : cluster.stored = st.cluster.stored := by
      cases hstep
      rfl
    refine ⟨⟨h.view.congr hservers rfl, h.cluster.step henv' hstep, ?_⟩, .refl _⟩
    show KeysOk c st.asked st.network cluster.stored
    rw [hstored]
    exact h.keys

/-- The network of a run is one that the network model reaches with synchronisation requests after
replies, and the invariant holds. -/
theorem deploymentOk_of_reachable {dataset : Dataset c}
    (hnulFree : ∀ pair ∈ dataset.pairs, NulFree pair.2) {ops : ℕ → List (String × ℕ)}
    (hops : ∀ a, ∀ op ∈ ops a, IsKey c op.1)
    (h : ReachableUnder (deploymentStep layout c) (DeploymentEnvironment layout c)
      (.initial layout dataset ops) st) :
    DeploymentOk layout c st ∧ ReachableUnder (networkStep layout.numClients)
      (SyncsAfterReplies layout.numClients) (.initial (clientScript layout.numClients ops))
      st.network := by
  refine h.simulate DeploymentState.network (I := DeploymentOk layout c) ?_
    fun _ _ _ hok henv hs => hok.step henv hs
  exact ⟨viewOk_initial dataset ops, cStringClusterOk_initial dataset hnulFree,
    keysOk_initial hops _ _⟩

/-- The gets of a run take their own replies. -/
theorem getInvariant_of_reachableUnder {numClients : ℕ} {ops : ℕ → List (String × ℕ)}
    {network : NetworkState} (h : ReachableUnder (networkStep numClients)
      (SyncsAfterReplies numClients) (.initial (clientScript numClients ops)) network) :
    GetInvariant numClients network := by
  refine h.invariant (I := GetInvariant numClients) ?_ fun _ _ _ _ hinv hguard hs =>
    hinv.step hguard hs
  refine ⟨pathInvariant_initial _, stages_initial numClients ops, ?_, ?_⟩
  · exact ⟨fun _ _ _ _ hmem => absurd hmem List.not_mem_nil,
      fun _ _ _ hmem => absurd hmem List.not_mem_nil⟩
  · exact fun _ hmem => absurd hmem List.not_mem_nil

/-! ## Results -/

/-- The step receives a put request. -/
def receivesPut : DeploymentLabel → Bool
  | .server _ _ (.receivePut _ _ _) => true
  | _ => false

/-- The environment, when nobody sends puts. -/
def WithoutPuts (layout : Layout) (c : ClusterConfig) (st : DeploymentState)
    (label : DeploymentLabel) : Prop :=
  DeploymentEnvironment layout c st label ∧ receivesPut label = false

/-- A run without puts is a run. -/
theorem environment_of_withoutPuts {st₀ : DeploymentState}
    (h : ReachableUnder (deploymentStep layout c) (WithoutPuts layout c) st₀ st) :
    ReachableUnder (deploymentStep layout c) (DeploymentEnvironment layout c) st₀ st := by
  induction h with
  | refl => exact .refl
  | tail _ hguard hs ih => exact ih.tail hguard.1 hs

/-- The client asks for a key of the dataset. -/
theorem isKey_getOne : ∀ a, ∀ op ∈ getOne a, IsKey indexingCluster op.1 := by
  intro a op hop
  unfold getOne at hop
  split at hop
  · rw [List.mem_singleton.mp hop]
    exact ⟨1, by decide, by decide, rfl⟩
  · cases hop

/-- Nobody does anything wrong in this run, and nobody sends a put. -/
theorem withoutPuts_remoteRun : EveryStep (deploymentStep oneClient indexingCluster)
    (WithoutPuts oneClient indexingCluster) (.initial oneClient onePair getOne) remoteRun := by
  refine And.intro ⟨trivial, rfl⟩ (And.intro ⟨trivial, rfl⟩
    (And.intro ⟨trivial, rfl⟩ (And.intro ⟨trivial, rfl⟩
      (And.intro ⟨trivial, rfl⟩ ?_))))
  refine And.intro ⟨fun _ _ _ _ hcached => Bool.noConfusion hcached, rfl⟩ ?_
  refine And.intro ⟨⟨Or.inr ⟨1, "A", "", List.mem_cons_self, rfl, rfl⟩, trivial⟩, rfl⟩ ?_
  refine And.intro ⟨⟨⟨?_, ?_⟩, trivial⟩, rfl⟩ (And.intro ⟨⟨trivial, trivial⟩, rfl⟩
    (And.intro ⟨trivial, rfl⟩ (And.intro ⟨trivial, rfl⟩ trivial)))
  · intro read rest hqueue
    cases hqueue
    exact List.mem_cons_self
  · intro data hdata
    cases hdata

/-- **Gets return stored values.** If the clients ask for keys of the dataset and no value contains
a NUL byte, then in every run of clients, connections and servers, every get that has returned asked
for some key and returned a value that was stored under this key at some time. -/
theorem gets_return_stored_values (layout : Layout) (dataset : Dataset c)
    (hnulFree : ∀ pair ∈ dataset.pairs, NulFree pair.2)
    {ops : ℕ → List (String × ℕ)} (hops : ∀ a, ∀ op ∈ ops a, IsKey c op.1)
    (h : ReachableUnder (deploymentStep layout c) (DeploymentEnvironment layout c)
      (.initial layout dataset ops) st) :
    ∀ get ∈ st.network.finished, ∃ key, st.asked[get.request]? = some key ∧
      st.cluster.Stored key get.returned := by
  obtain ⟨hok, hnetwork⟩ := deploymentOk_of_reachable hnulFree hops h
  intro get hget
  obtain ⟨value, -, hanswer, hreturned⟩ :=
    (getInvariant_of_reachableUnder hnetwork).gets get hget
  rw [hreturned]
  exact hok.keys.answers get.request value hanswer

/-- The get of a run through a slot of another server. -/
theorem gets_return_stored_values_remote : ∃ st,
    runLabels (deploymentStep oneClient indexingCluster)
      (.initial oneClient onePair getOne) remoteRun
      = some st ∧ st.network.finished.length = 1 ∧
    ∀ get ∈ st.network.finished, ∃ key, st.asked[get.request]? = some key ∧
      st.cluster.Stored key get.returned :=
  ⟨_, rfl, rfl, gets_return_stored_values oneClient onePair (by decide) isKey_getOne
    (environment_of_withoutPuts (reachableUnder_of_runLabels remoteRun withoutPuts_remoteRun rfl))⟩

/-- The value that every key of the dataset has: `VALUE_SIZE` times `'A'`. -/
def defaultValue (c : ClusterConfig) : String := String.ofList (List.replicate c.valueSize 'A')

/-- It is a C string. -/
theorem nulFree_defaultValue (c : ClusterConfig) : NulFree (defaultValue c) := by
  intro b hb
  rw [defaultValue, String.toList_ofList] at hb
  rw [List.eq_of_mem_replicate hb]
  decide

/-- `wrong_value` of `execute_operations`: the gets of a client that have returned another value. -/
def wrongValue (c : ClusterConfig) (network : NetworkState) (a : ℕ) : ℕ :=
  network.finished.countP fun get => get.client = a ∧ get.returned ≠ defaultValue c

/-- Without puts the stored pairs are those of the dataset. -/
theorem stored_of_withoutPuts {dataset : Dataset c} {ops : ℕ → List (String × ℕ)}
    (h : ReachableUnder (deploymentStep layout c) (WithoutPuts layout c)
      (.initial layout dataset ops) st) : st.cluster.stored = dataset.pairs := by
  refine h.invariant (I := fun st => st.cluster.stored = dataset.pairs) rfl ?_
  intro s label s' _ hold hguard hs
  have hfold : ∀ (n t : ℕ) (packets : List ServerPacket) (st : DeploymentState),
      (packets.foldl (sendToClient layout n t) st).cluster = st.cluster := by
    intro n t packets
    induction packets with
    | nil => exact fun _ => rfl
    | cons packet packets ih =>
      intro st
      rw [List.foldl_cons, ih]
      cases packet with
      | getResponse => simp only [sendToClient]; split <;> rfl
      | putResponse | singletonPutRequest => rfl
  cases deploymentMove_of_step hs with
  | client => exact hold
  | receiveGet hrequests hstep hmove hservers =>
    rw [hfold]
    exact (stored_clusterStep hstep).trans hold
  | @server n t serverLabel cluster st₁ effects hlabel hstep hmove hservers =>
    rw [hfold]
    refine (stored_clusterStep hstep).trans (Eq.trans ?_ hold)
    cases serverLabel with
    | receivePut => exact absurd hguard.2 Bool.noConfusion
    | _ => rfl
  | writeSlot hstep hservers =>
    cases hstep
    exact hold

/-- **No wrong values.** When the dataset holds the default value, the clients ask for its keys and
nobody sends puts, no client of `execute_operations` ever counts a wrong value. -/
theorem no_wrong_values (layout : Layout) (dataset : Dataset c)
    (hdefault : ∀ pair ∈ dataset.pairs, pair.2 = defaultValue c) {ops : ℕ → List (String × ℕ)}
    (hops : ∀ a, ∀ op ∈ ops a, IsKey c op.1)
    (h : ReachableUnder (deploymentStep layout c) (WithoutPuts layout c)
      (.initial layout dataset ops) st) (a : ℕ) : wrongValue c st.network a = 0 := by
  have hnulFree : ∀ pair ∈ dataset.pairs, NulFree pair.2 := by
    intro pair hpair
    rw [hdefault pair hpair]
    exact nulFree_defaultValue c
  obtain ⟨hok, hnetwork⟩ := deploymentOk_of_reachable hnulFree hops (environment_of_withoutPuts h)
  have hgets := (getInvariant_of_reachableUnder hnetwork).gets
  refine List.countP_eq_zero.mpr ?_
  intro get hget
  obtain ⟨value, -, hanswer, hreturned⟩ := hgets get hget
  obtain ⟨key, -, hstored⟩ := hok.keys.answers get.request value hanswer
  rw [stored_of_withoutPuts h] at hstored
  have hvalue : get.returned = defaultValue c := by
    rw [hreturned]
    exact hdefault _ hstored
  simp [hvalue]

/-- The get of that run has returned, and counts as no wrong value. -/
theorem no_wrong_values_remote : ∃ st, runLabels (deploymentStep oneClient indexingCluster)
      (.initial oneClient onePair getOne) remoteRun = some st ∧ st.network.finished.length = 1 ∧
    wrongValue indexingCluster st.network 0 = 0 :=
  ⟨_, rfl, rfl, no_wrong_values oneClient onePair
    (fun _ hmem => by rw [List.mem_singleton.mp hmem]; decide) isKey_getOne
    (reachableUnder_of_runLabels remoteRun withoutPuts_remoteRun rfl) 0⟩

end TwigKV.Deployment
