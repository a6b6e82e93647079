import TwigKV.Deployment.EndToEnd
import TwigKV.Deployment.SingletonRing

/-! # Forwarded singletons arrive once

Every pair that `put_nchance` evicts is, at any time, in exactly one of three places: in the queue
of its thread, on its way, or given to `put_singleton` by the thread with the same number of the
next server (`singletons_forwarded_exactly_once`). Sending and delivering alone, in any order, come
to an end, and then all of them have been given to the next server (`forwarding_completes`). -/

namespace TwigKV.Deployment

open Server Cluster

/-! ## What one step of a thread forwards -/

section Thread

variable {config : ServerConfig} {st st₁ : ServerState} {label : ServerLabel}
  {effects : List ServerEffect}

/-- A queued forward as it will be sent. -/
def forwardQueued (put : QueuedSingletonPut) : Forward := ⟨put.index, put.port, put.evicted⟩

/-- The forward of an evicted pair. -/
def forwardTo (config : ServerConfig) (data : EvictionCallbackData) : Forward :=
  ⟨remoteIndexToForward config, config.port + config.threadIndex, data⟩

/-- The forward that an effect queues. -/
def queuedPut : ServerEffect → Option QueuedSingletonPut
  | .appendSingletonPutRequest put => some put
  | _ => none

/-- A pair after it has been sent as two C strings. -/
def arrived (data : EvictionCallbackData) : EvictionCallbackData :=
  { data with key := cStr data.key, value := cStr data.value }

/-- The pair that a step gives to `put_singleton`. -/
def adoptedBy : ServerLabel → List EvictionCallbackData
  | .receiveSingletonPut key value singleton forwardCount =>
      [arrived ⟨key, value, singleton, forwardCount⟩]
  | _ => []

/-- The effect has nothing to do with forwards. -/
structure Silent (effect : ServerEffect) : Prop where
  /-- It sends none. -/
  forwardOf : forwardOf effect = none
  /-- It queues none. -/
  queuedPut : queuedPut effect = none
  /-- It is not `put_singleton`. -/
  adoptionOf : adoptionOf effect = none

/-- What a step of a thread does with forwards. -/
structure Forwards (config : ServerConfig) (st : ServerState) (label : ServerLabel)
    (st₁ : ServerState) (effects : List ServerEffect) : Prop where
  /-- What is evicted or in the queue is sent, or in the queue after the step. -/
  perm : ((evictedBy config st label).map (forwardTo config)
      ++ st.singletonPutRequestQueue.map forwardQueued).Perm
    (effects.filterMap forwardOf
      ++ (applyEffects st₁ effects).singletonPutRequestQueue.map forwardQueued)
  /-- What is in the queue after the step was there or has been queued with `OK`. -/
  ok : ∀ put ∈ (applyEffects st₁ effects).singletonPutRequestQueue,
    put ∈ st.singletonPutRequestQueue ∨ put.responseType = .ok
  /-- What is given to `put_singleton`. -/
  adopted : effects.filterMap adoptionOf = adoptedBy label

/-- Effects put into the queue what they queue. -/
theorem singletonPutRequestQueue_applyEffects (st : ServerState) (effects : List ServerEffect) :
    (applyEffects st effects).singletonPutRequestQueue
      = st.singletonPutRequestQueue ++ effects.filterMap queuedPut := by
  induction effects generalizing st with
  | nil => exact (List.append_nil _).symm
  | cons effect effects ih =>
    show (applyEffects (applyEffect st effect) effects).singletonPutRequestQueue = _
    rw [ih, List.filterMap_cons]
    cases effect <;> simp [applyEffect, queuedPut]

/-- A list of silent effects. -/
theorem filterMap_of_silent (h : ∀ effect ∈ effects, Silent effect) :
    effects.filterMap forwardOf = [] ∧ effects.filterMap queuedPut = [] ∧
      effects.filterMap adoptionOf = [] := by
  refine ⟨?_, ?_, ?_⟩
  · exact List.filterMap_eq_nil_iff.mpr fun effect hmem => (h effect hmem).forwardOf
  · exact List.filterMap_eq_nil_iff.mpr fun effect hmem => (h effect hmem).queuedPut
  · exact List.filterMap_eq_nil_iff.mpr fun effect hmem => (h effect hmem).adoptionOf

/-- A step whose effects are silent. -/
theorem forwards_of_silent (hqueue : st₁.singletonPutRequestQueue = st.singletonPutRequestQueue)
    (hevicted : evictedBy config st label = []) (hadopted : adoptedBy label = [])
    (h : ∀ effect ∈ effects, Silent effect) : Forwards config st label st₁ effects := by
  obtain ⟨hforward, hqueued, hadoption⟩ := filterMap_of_silent h
  have hafter : (applyEffects st₁ effects).singletonPutRequestQueue
      = st.singletonPutRequestQueue := by
    rw [singletonPutRequestQueue_applyEffects, hqueued, List.append_nil, hqueue]
  refine ⟨?_, ?_, hadoption.trans hadopted.symm⟩
  · rw [hevicted, hforward, hafter]
    exact .refl _
  · rw [hafter]
    exact fun put hput => Or.inl hput

/-- The disk part of a handler is silent. -/
theorem diskRule_silent (request : GetRequest) : DiskRule config request Silent where
  getAsync := fun _ _ => ⟨rfl, rfl, rfl⟩
  blockCacheGet := fun _ _ => ⟨rfl, rfl, rfl⟩
  getResponse := fun _ _ => ⟨rfl, rfl, rfl⟩

/-- So is the RDMA part of the get handler. -/
theorem rdmaRule_silent (request : GetRequest) (keyIndex : UInt64) :
    RdmaRule config request keyIndex Silent where
  readSlot := fun _ _ _ => ⟨rfl, rfl, rfl⟩
  readBlock := fun _ => ⟨rfl, rfl, rfl⟩
  readBuffer := fun _ _ => ⟨rfl, rfl, rfl⟩

/-- And the access-rate part of the read callback. -/
theorem silent_accessRateEffects {keyIndex : UInt64} {value : String} {added : Bool}
    (h : accessRateEffects config keyIndex value added = some effects) :
    ∀ effect ∈ effects, Silent effect := by
  unfold accessRateEffects at h
  split at h
  · rw [Option.map_eq_some_iff] at h
    obtain ⟨count, hcount, rfl⟩ := h
    refine List.forall_mem_cons.mpr ⟨⟨rfl, rfl, rfl⟩, ?_⟩
    split at hcount
    · exact forall_mem_updateSnapshot hcount ⟨rfl, rfl, rfl⟩
    · cases hcount
      exact List.forall_mem_nil _
  · cases h
    exact List.forall_mem_nil _

/-- The read callback queues what `put_nchance` evicts. -/
theorem forwards_slotCallback {i : ℕ} {read : SlotRead} {rest : List SlotRead}
    {kv : RDMACacheIndexKeyValue} {answers : CallbackAnswers}
    (hqueue : dequeueAt st.pendingReads i = some (read, rest))
    (h : slotCallback config read kv answers = some effects) :
    Forwards config st (.slotReadCompleted i kv answers) { st with pendingReads := rest }
      effects := by
  by_cases hkey : kv.keyIndex = read.expectedKey
  · rw [slotCallback, if_pos hkey, slotMatch, Option.map_eq_some_iff] at h
    obtain ⟨accessRate, haccessRate, rfl⟩ := h
    obtain ⟨hforward, hqueued, hadoption⟩ :=
      filterMap_of_silent (silent_accessRateEffects haccessRate)
    by_cases hpolicy : config.policyType = .nchance
    · have hevicted : evictedBy config st (.slotReadCompleted i kv answers)
          = answers.evicted.toList := by
        simp only [evictedBy, hqueue]
        exact if_pos ⟨hkey, hpolicy⟩
      have hput : ((nchanceEffects config (toString kv.keyIndex.toNat) (valueView config kv.data)
          answers.evicted).filterMap queuedPut) = answers.evicted.toList.map fun data =>
            ⟨remoteIndexToForward config, config.port + config.threadIndex, .ok, data⟩ := by
        cases answers.evicted <;> simp [nchanceEffects, hpolicy, List.filterMap_cons, queuedPut]
      have hsent : (nchanceEffects config (toString kv.keyIndex.toNat) (valueView config kv.data)
          answers.evicted).filterMap forwardOf = [] := by
        cases answers.evicted <;> simp [nchanceEffects, hpolicy, List.filterMap_cons, forwardOf]
      have hgiven : (nchanceEffects config (toString kv.keyIndex.toNat) (valueView config kv.data)
          answers.evicted).filterMap adoptionOf = [] := by
        cases answers.evicted <;> simp [nchanceEffects, hpolicy, List.filterMap_cons, adoptionOf]
      refine ⟨?_, ?_, ?_⟩
      · simp only [hevicted, singletonPutRequestQueue_applyEffects, List.filterMap_append,
          hput, hsent,
          hforward, hqueued, List.map_append, List.map_map, List.filterMap_cons, List.filterMap_nil,
          forwardOf, queuedPut, List.append_nil, List.nil_append]
        exact List.perm_append_comm
      · simp only [singletonPutRequestQueue_applyEffects, List.filterMap_append, hput, hqueued]
        intro put hmem
        simp only [List.append_assoc, List.mem_append, List.mem_map] at hmem
        refine hmem.imp_right ?_
        rintro (⟨data, -, rfl⟩ | hnone | hnone)
        · rfl
        · exact absurd hnone List.not_mem_nil
        · exact absurd hnone List.not_mem_nil
      · simp only [List.filterMap_append, hgiven, hadoption]
        rfl
    · -- another policy evicts nothing
      refine forwards_of_silent rfl ?_ rfl ?_
      · simp only [evictedBy, hqueue]
        exact if_neg fun h => hpolicy h.2
      · rw [nchanceEffects, if_neg hpolicy, List.nil_append]
        exact forall_mem_concat (silent_accessRateEffects haccessRate) ⟨rfl, rfl, rfl⟩
  · refine forwards_of_silent rfl ?_ rfl ?_
    · simp only [evictedBy, hqueue]
      exact if_neg fun h => hkey h.1
    · exact forall_mem_slotCallback h (fun hmatch => absurd hmatch hkey)
        (fun _ _ => ⟨rfl, rfl, rfl⟩) ⟨rfl, rfl, rfl⟩ (diskRule_silent _)

/-- **What every step does with forwards.** -/
theorem forwards_serverMove (h : serverMove config st label = some (st₁, effects)) :
    Forwards config st label st₁ effects := by
  cases serverMove_cases h with
  | receiveGet hget =>
    exact forwards_of_silent rfl rfl rfl (forall_mem_getHandler hget (fun _ _ => ⟨rfl, rfl, rfl⟩)
      (fun _ => ⟨rfl, rfl, rfl⟩) (fun _ _ => rdmaRule_silent _ _) (diskRule_silent _))
  | receivePut =>
    exact forwards_of_silent rfl rfl rfl (List.forall_mem_cons.mpr
      ⟨⟨rfl, rfl, rfl⟩, List.forall_mem_singleton.mpr ⟨rfl, rfl, rfl⟩⟩)
  | receiveSingletonPut => exact ⟨.refl _, fun put hput => Or.inl hput, rfl⟩
  | receiveDelete =>
    exact forwards_of_silent rfl rfl rfl (List.forall_mem_singleton.mpr ⟨rfl, rfl, rfl⟩)
  | slotReadCompleted hqueue hcallback => exact forwards_slotCallback hqueue hcallback
  | blockReadCompleted =>
    exact forwards_of_silent rfl rfl rfl (List.forall_mem_singleton.mpr ⟨rfl, rfl, rfl⟩)
  | diskReadCompleted _ hcallback =>
    exact forwards_of_silent rfl rfl rfl
      (forall_mem_diskCallback hcallback ⟨rfl, rfl, rfl⟩ ⟨rfl, rfl, rfl⟩)
  | sendRdmaGetResponse _ hsend =>
    exact forwards_of_silent rfl rfl rfl (forall_mem_sendQueued hsend ⟨rfl, rfl, rfl⟩)
  | sendBlockCacheRequest _ hsend =>
    exact forwards_of_silent rfl rfl rfl (forall_mem_sendQueued hsend ⟨rfl, rfl, rfl⟩)
  | sendSingletonPutRequest hqueue =>
    exact ⟨(dequeueAt_perm hqueue).map forwardQueued,
      fun put hput => Or.inl (mem_of_mem_dequeueAt hqueue hput), rfl⟩

end Thread

/-! ## The ring -/

section Addresses

variable {c : ClusterConfig} (ring : Ring c)

/-- Different servers have different next servers. -/
theorem Ring.eq_of_next_eq {s s' : ℕ} (hs : s < ring.numServers) (hs' : s' < ring.numServers)
    (h : ring.next s = ring.next s') : s = s' :=
  Nat.ModEq.eq_of_lt_of_lt (Nat.ModEq.add_right_cancel' 1 h) hs hs'

/-- The next server is one of the servers. -/
theorem Ring.next_lt (s : ℕ) : ring.next s < ring.numServers :=
  Nat.mod_lt _ (Nat.lt_of_succ_lt ring.one_lt_numServers)

/-- An evicted pair is forwarded to the thread with the same number of the next server. -/
theorem Ring.reaches_forwardTo_iff (s t s' t' : ℕ) (data : EvictionCallbackData) :
    ring.Reaches s' t' (forwardTo (c.serverConfig s t) data) ↔ s' = ring.next s ∧ t' = t := by
  have hindex : remoteIndexToForward (c.serverConfig s t) = ring.next s + ring.firstServer := by
    rw [remoteIndexToForward, ring.numServers_eq, ring.baseIndex_eq, ring.serverStartIndex_eq]
    rfl
  unfold Ring.Reaches forwardTo
  rw [hindex, ring.port_eq, ring.threadIndex_eq]
  show ring.next s + ring.firstServer = ring.firstServer + s' ∧ ring.port + t = ring.port + t' ↔ _
  omega

end Addresses

section Invariant

variable {c : ClusterConfig} {ring : Ring c}

/-- What has become of the pairs that were evicted for thread `t` of server `s`: given to the next
server, on their way, or queued. -/
def carried (ring : Ring c) (st : RingState) (s t : ℕ) : List EvictionCallbackData :=
  st.adopted (ring.next s) t
    ++ (((st.inFlight.filter fun forward => ring.Reaches (ring.next s) t forward)
      ++ (st.cluster.servers s t).singletonPutRequestQueue.map forwardQueued).map
        fun forward => arrived forward.evicted)

/-- Every forward was sent to the server behind the one that it comes from. -/
structure Addressed (ring : Ring c) (st : RingState) : Prop where
  /-- The queues hold forwards to the next server. -/
  queued : ∀ s t, ∀ put ∈ (st.cluster.servers s t).singletonPutRequestQueue,
    put.responseType = .ok ∧ ∃ data, forwardQueued put = forwardTo (c.serverConfig s t) data
  /-- The forwards on their way were sent to threads that there are. -/
  inFlight : ∀ forward ∈ st.inFlight, ∃ s t, ring.IsThread s t ∧ ring.Reaches s t forward

/-- What holds of a ring in every state of every run. -/
structure RingOk (ring : Ring c) (st : RingState) : Prop extends Addressed ring st where
  /-- No pair is lost and none is forwarded twice. -/
  conserved : ∀ s t, ring.IsThread s t →
    ((st.evicted s t).map arrived).Perm (carried ring st s t)

/-- Nothing has been evicted. -/
theorem ringOk_initial (dataset : Dataset c) : RingOk ring (.initial dataset) where
  queued := fun _ _ _ hput => absurd hput List.not_mem_nil
  inFlight := fun _ hforward => absurd hforward List.not_mem_nil
  conserved := fun _ _ _ => .refl _

/-- A step of a thread in terms of its effects. -/
theorem threadActs_spec {st st' : RingState} {s t : ℕ} {label : ServerLabel}
    (h : threadActs c st s t label = some st') :
    ∃ st₁ effects, serverMove (c.serverConfig s t) (st.cluster.servers s t) label
        = some (st₁, effects) ∧
      clusterStep c st.cluster (.server s t label) = some st'.cluster ∧
      st'.cluster.servers = update₂ st.cluster.servers s t (applyEffects st₁ effects) ∧
      st'.inFlight = st.inFlight ++ effects.filterMap forwardOf ∧
      st'.evicted = update₂ st.evicted s t
        (st.evicted s t ++ evictedBy (c.serverConfig s t) (st.cluster.servers s t) label) ∧
      st'.adopted = update₂ st.adopted s t (st.adopted s t ++ effects.filterMap adoptionOf) := by
  simp only [threadActs, Option.bind_eq_some_iff, Option.map_eq_some_iff] at h
  obtain ⟨⟨st₁, effects⟩, hmove, cluster, hcluster, rfl⟩ := h
  obtain ⟨st₂, effects', hmove', hservers, -⟩ := servers_clusterStep hcluster
  rw [hmove, Option.some.injEq, Prod.mk.injEq] at hmove'
  obtain ⟨rfl, rfl⟩ := hmove'
  exact ⟨st₁, effects, hmove, hcluster, hservers, rfl, rfl, rfl⟩

/-- The forwards that a thread sends are addressed to the next server. -/
theorem sent_forwardTo {config : ServerConfig} {server st₁ : ServerState} {label : ServerLabel}
    {effects : List ServerEffect} (h : Forwards config server label st₁ effects)
    (hqueued : ∀ put ∈ server.singletonPutRequestQueue,
      put.responseType = .ok ∧ ∃ data, forwardQueued put = forwardTo config data) :
    (∀ forward ∈ effects.filterMap forwardOf, ∃ data, forward = forwardTo config data) ∧
      ∀ put ∈ (applyEffects st₁ effects).singletonPutRequestQueue,
        put.responseType = .ok ∧ ∃ data, forwardQueued put = forwardTo config data := by
  have hall : ∀ forward ∈ effects.filterMap forwardOf
      ++ (applyEffects st₁ effects).singletonPutRequestQueue.map forwardQueued,
      ∃ data, forward = forwardTo config data := by
    intro forward hmem
    rw [← h.perm.mem_iff, List.mem_append, List.mem_map, List.mem_map] at hmem
    rcases hmem with ⟨data, -, hdata⟩ | ⟨put, hput, hforward⟩
    · exact ⟨data, hdata.symm⟩
    · rw [← hforward]
      exact (hqueued put hput).2
  refine ⟨fun forward hmem => hall forward (List.mem_append_left _ hmem), ?_⟩
  intro put hput
  refine ⟨?_, hall _ (List.mem_append_right _ (List.mem_map_of_mem hput))⟩
  rcases h.ok put hput with hold | hok
  · exact (hqueued put hold).1
  · exact hok

/-- A step of a thread keeps forwards addressed. -/
theorem Addressed.threadActs {st st' : RingState} (h : Addressed ring st) {s t : ℕ}
    {label : ServerLabel} (hthread : ring.IsThread s t)
    (hs : threadActs c st s t label = some st') :
    Addressed ring st' := by
  obtain ⟨st₁, effects, hmove, -, hservers, hflight, -, -⟩ := threadActs_spec hs
  obtain ⟨hsent, hqueue⟩ := sent_forwardTo (forwards_serverMove hmove) (h.queued s t)
  refine ⟨?_, ?_⟩
  · intro s₀ t₀ put hput
    rw [hservers, update₂_apply] at hput
    split at hput
    · next heq =>
      rw [heq.1, heq.2]
      exact hqueue put hput
    · exact h.queued s₀ t₀ put hput
  · intro forward hmem
    rw [hflight, List.mem_append] at hmem
    rcases hmem with hold | hnew
    · exact h.inFlight forward hold
    · obtain ⟨data, rfl⟩ := hsent forward hnew
      exact ⟨ring.next s, t, ⟨ring.next_lt s, hthread.2⟩,
        (ring.reaches_forwardTo_iff ..).mpr ⟨rfl, rfl⟩⟩

/-- Taking a forward off its way leaves the others addressed. -/
theorem Addressed.dequeue {st : RingState} (h : Addressed ring st) {i : ℕ} {forward : Forward}
    {rest : List Forward} (hqueue : dequeueAt st.inFlight i = some (forward, rest)) :
    Addressed ring { st with inFlight := rest } :=
  ⟨h.queued, fun forward hmem => h.inFlight forward (mem_of_mem_dequeueAt hqueue hmem)⟩

/-- What a thread evicts is carried afterwards, and so is whatever was carried before; what another
server gives to `put_singleton` is carried in addition. -/
theorem carried_threadActs {st st' : RingState} {s t : ℕ} {label : ServerLabel}
    (haddressed : Addressed ring st) (hs : s < ring.numServers)
    (h : threadActs c st s t label = some st') {s₀ : ℕ} (hs₀ : s₀ < ring.numServers) (t₀ : ℕ) :
    (((st'.evicted s₀ t₀).map arrived ++ carried ring st s₀ t₀)
      ++ if ring.next s₀ = s ∧ t₀ = t then adoptedBy label else []).Perm
    ((st.evicted s₀ t₀).map arrived ++ carried ring st' s₀ t₀) := by
  obtain ⟨st₁, effects, hmove, -, hservers, hflight, hevicted, hadopted⟩ := threadActs_spec h
  have hforwards := forwards_serverMove hmove
  have hsent := (sent_forwardTo hforwards (haddressed.queued s t)).1
  rw [List.perm_iff_count]
  intro data
  have hgiven : (st'.adopted (ring.next s₀) t₀).count data
      = (st.adopted (ring.next s₀) t₀).count data
        + (if ring.next s₀ = s ∧ t₀ = t then adoptedBy label else []).count data := by
    rw [hadopted, update₂_apply, hforwards.adopted]
    split
    · next heq => rw [List.count_append, heq.1, heq.2]
    · rfl
  unfold carried
  rw [hservers, hflight, hevicted, update₂_apply, update₂_apply]
  by_cases hsame : s₀ = s ∧ t₀ = t
  · obtain ⟨rfl, rfl⟩ := hsame
    -- all that is sent goes to the next server
    have hfilter : (effects.filterMap forwardOf).filter
        (fun forward => ring.Reaches (ring.next s₀) t₀ forward) = effects.filterMap forwardOf := by
      refine List.filter_eq_self.mpr fun forward hmem => ?_
      obtain ⟨evicted, rfl⟩ := hsent forward hmem
      exact decide_eq_true ((ring.reaches_forwardTo_iff ..).mpr ⟨rfl, rfl⟩)
    have hcount := (hforwards.perm.map fun forward => arrived forward.evicted).count_eq data
    have hmap : ((evictedBy (c.serverConfig s₀ t₀) (st.cluster.servers s₀ t₀) label).map
        (forwardTo (c.serverConfig s₀ t₀))).map (fun forward => arrived forward.evicted)
        = (evictedBy (c.serverConfig s₀ t₀) (st.cluster.servers s₀ t₀) label).map arrived := by
      rw [List.map_map]
      rfl
    rw [List.map_append, List.map_append, List.count_append, List.count_append, hmap] at hcount
    simp only [and_self, if_true, List.filter_append, hfilter, List.map_append, List.count_append,
      hgiven] at hcount ⊢
    omega
  · -- and nothing that is sent goes anywhere else
    have hfilter : (effects.filterMap forwardOf).filter
        (fun forward => ring.Reaches (ring.next s₀) t₀ forward) = [] := by
      refine List.filter_eq_nil_iff.mpr fun forward hmem => ?_
      obtain ⟨evicted, rfl⟩ := hsent forward hmem
      rw [decide_eq_true_eq, ring.reaches_forwardTo_iff]
      exact fun hnext => hsame ⟨ring.eq_of_next_eq hs₀ hs hnext.1, hnext.2⟩
    simp only [if_neg hsame, List.filter_append, hfilter, List.append_nil, List.count_append,
      hgiven]
    omega

/-- A thread that receives no forward keeps the invariant. -/
theorem RingOk.threadActs {st st' : RingState} (h : RingOk ring st) {s t : ℕ}
    {label : ServerLabel} (hthread : ring.IsThread s t) (hlabel : receivesForward label = false)
    (hs : TwigKV.Deployment.threadActs c st s t label = some st') : RingOk ring st' := by
  have hnone : adoptedBy label = [] := by
    cases label with
    | receiveSingletonPut => cases hlabel
    | _ => rfl
  refine ⟨h.toAddressed.threadActs hthread hs, ?_⟩
  intro s₀ t₀ hthread₀
  have hcarried := carried_threadActs h.toAddressed hthread.1 hs hthread₀.1 t₀
  rw [hnone, ite_self, List.append_nil] at hcarried
  have hconserved := h.conserved s₀ t₀ hthread₀
  rw [List.perm_iff_count] at hcarried hconserved ⊢
  intro data
  have hdata := hcarried data
  have hbefore := hconserved data
  rw [List.count_append, List.count_append] at hdata
  omega

/-- The forward that a thread is given was carried until then just for the server before it. -/
theorem carried_dequeue {st : RingState} {s t i : ℕ} {forward : Forward} {rest : List Forward}
    (hqueue : dequeueAt st.inFlight i = some (forward, rest)) (hreaches : ring.Reaches s t forward)
    (s₀ t₀ : ℕ) :
    (carried ring st s₀ t₀).Perm (carried ring { st with inFlight := rest } s₀ t₀
      ++ if ring.next s₀ = s ∧ t₀ = t then adoptedBy forward.message else []) := by
  have hiff : ring.Reaches (ring.next s₀) t₀ forward ↔ ring.next s₀ = s ∧ t₀ = t := by
    have hindex := hreaches.1
    have hport := hreaches.2
    unfold Ring.Reaches
    omega
  have hperm := (dequeueAt_perm hqueue).filter
    fun forward => decide (ring.Reaches (ring.next s₀) t₀ forward)
  rw [List.perm_iff_count]
  intro data
  have hcount := (hperm.map fun forward => arrived forward.evicted).count_eq data
  unfold carried
  by_cases hsame : ring.next s₀ = s ∧ t₀ = t
  · have hat := hiff.mpr hsame
    simp only [List.filter_cons, decide_eq_true_eq, hat, if_true, List.map_cons,
      List.count_cons] at hcount
    have hadopted : adoptedBy forward.message = [arrived forward.evicted] := rfl
    simp only [if_pos hsame, List.map_append, List.count_append, hcount, hadopted,
      List.count_singleton]
    omega
  · have hat : ¬ ring.Reaches (ring.next s₀) t₀ forward := fun hr => hsame (hiff.mp hr)
    simp only [List.filter_cons, decide_eq_true_eq, hat, if_false] at hcount
    simp only [if_neg hsame, List.map_append, List.count_append, hcount, List.append_nil]

/-- A thread that is given a forward adopts its pair. -/
theorem RingOk.deliver {st st' : RingState} (h : RingOk ring st) {s t i : ℕ} {forward : Forward}
    {rest : List Forward} (hthread : ring.IsThread s t)
    (hqueue : dequeueAt st.inFlight i = some (forward, rest)) (hreaches : ring.Reaches s t forward)
    (hs : TwigKV.Deployment.threadActs c { st with inFlight := rest } s t forward.message
      = some st') : RingOk ring st' := by
  have haddressed := h.toAddressed.dequeue hqueue
  refine ⟨haddressed.threadActs hthread hs, ?_⟩
  intro s₀ t₀ hthread₀
  have hcarried := carried_threadActs haddressed hthread.1 hs hthread₀.1 t₀
  have hbefore := carried_dequeue hqueue hreaches s₀ t₀
  have hconserved := h.conserved s₀ t₀ hthread₀
  rw [List.perm_iff_count] at hcarried hbefore hconserved ⊢
  intro data
  have hdata := hcarried data
  have hdequeued := hbefore data
  have hold := hconserved data
  simp only [List.count_append] at hdata hdequeued
  omega

/-- Every step keeps the invariant. -/
theorem RingOk.step {st st' : RingState} (h : RingOk ring st) {label : RingLabel}
    (hs : ringStep ring st label = some st') : RingOk ring st' := by
  cases label with
  | server s t label =>
    rw [ringStep] at hs
    split at hs
    · next hcan => exact h.threadActs hcan.1 hcan.2 hs
    · cases hs
  | deliver s t i =>
    rw [ringStep, Option.bind_eq_some_iff] at hs
    obtain ⟨⟨forward, rest⟩, hqueue, hs⟩ := hs
    dsimp only at hs
    split at hs
    · next hcan => exact h.deliver hcan.1 hqueue hcan.2 hs
    · cases hs
  | writeSlot s offset kv =>
    rw [ringStep, Option.map_eq_some_iff] at hs
    obtain ⟨cluster, hcluster, rfl⟩ := hs
    cases hcluster
    exact ⟨⟨h.queued, h.inFlight⟩, h.conserved⟩

/-- **Forwards are neither lost nor duplicated.** In every run of a ring, the pairs that
`put_nchance` has evicted for a thread are those that the thread with the same number of the next
server has given to `put_singleton`, those on their way to it and those queued. -/
theorem singletons_forwarded_exactly_once (dataset : Dataset c) {st : RingState}
    (h : Reachable (ringStep ring) (.initial dataset) st) {s t : ℕ} (hthread : ring.IsThread s t) :
    ((st.evicted s t).map arrived).Perm (carried ring st s t) := by
  have hok : RingOk ring st := by
    refine h.invariant (I := RingOk ring) (ringOk_initial dataset) ?_
    intro _ _ _ _ hinv _ hs
    exact hinv.step hs
  exact hok.conserved s t hthread

/-- One evicted pair has arrived. -/
theorem singletons_forwarded_exactly_once_two_servers :
    ∃ st, runLabels (ringStep twoServers) (.initial oneStored) evictionRun = some st ∧
      st.adopted 1 0 = [⟨"1", "A", true, 0⟩] ∧
      ((st.evicted 0 0).map arrived).Perm (carried twoServers st 0 0) :=
  ⟨_, rfl, rfl, singletons_forwarded_exactly_once oneStored
    (reachable_of_runLabels evictionRun rfl) (by decide)⟩

end Invariant

/-! ## Draining the ring -/

/-- The step sends a queued forward or delivers one. -/
def drains : RingLabel → Bool
  | .server _ _ (.sendSingletonPutRequest _) | .deliver _ _ _ => true
  | _ => false

section Drain

variable {c : ClusterConfig} {ring : Ring c} {st st' : RingState}

/-- The steps that only bring forwards to where they go. -/
def drainStep (ring : Ring c) (st : RingState) (label : RingLabel) : Option RingState :=
  if drains label then ringStep ring st label else none

/-- Whatever a thread can do, it can do in the ring. -/
theorem threadActs_ne_none {s t : ℕ} {label : ServerLabel} {move : ServerState × List ServerEffect}
    (h : serverMove (c.serverConfig s t) (st.cluster.servers s t) label = some move) :
    threadActs c st s t label ≠ none := by
  simp only [threadActs, clusterStep, h, Option.bind_some, Option.map_some]
  exact Option.some_ne_none _

/-- **Where a drain ends**, nothing is queued and nothing is on its way. -/
theorem drained_of_stuck (h : Addressed ring st) (hstuck : Stuck (drainStep ring) st) :
    st.inFlight = [] ∧ ∀ s t, ring.IsThread s t →
      (st.cluster.servers s t).singletonPutRequestQueue = [] := by
  refine ⟨?_, ?_⟩
  · cases hflight : st.inFlight with
    | nil => rfl
    | cons forward rest =>
      exfalso
      obtain ⟨s, t, hthread, hreaches⟩ :=
        h.inFlight forward (by rw [hflight]; exact List.mem_cons_self)
      have hnone := hstuck (.deliver s t 0)
      have hqueue : dequeueAt st.inFlight 0 = some (forward, rest) := by
        rw [hflight]
        rfl
      simp only [drainStep, drains, if_true, ringStep, hqueue, Option.bind_some,
        if_pos (And.intro hthread hreaches)] at hnone
      exact threadActs_ne_none rfl hnone
  · intro s t hthread
    cases hputs : (st.cluster.servers s t).singletonPutRequestQueue with
    | nil => rfl
    | cons put rest =>
      exfalso
      have hok := (h.queued s t put (by rw [hputs]; exact List.mem_cons_self)).1
      have hnone := hstuck (.server s t (.sendSingletonPutRequest 0))
      have hqueue : dequeueAt (st.cluster.servers s t).singletonPutRequestQueue 0
          = some (put, rest) := by
        rw [hputs]
        rfl
      simp only [drainStep, drains, if_true, ringStep, receivesForward, and_true,
        if_pos hthread] at hnone
      have hmove : serverMove (c.serverConfig s t) (st.cluster.servers s t)
          (.sendSingletonPutRequest 0)
          = some ({ st.cluster.servers s t with singletonPutRequestQueue := rest },
            [.send (.singletonPutRequest put.index put.port put.evicted)]) := by
        simp only [serverMove, hqueue, Option.bind_eq_bind, Option.bind_some, if_pos hok]
      exact threadActs_ne_none hmove hnone

end Drain

/-! ## What is forwarded -/

section Values

variable {c : ClusterConfig} {ring : Ring c} {st : RingState}

/-- What is on its way has been sent, and what has been evicted was stored. -/
structure ValuesOk (st : RingState) : Prop where
  /-- A thread has sent it. -/
  inFlight : ∀ forward ∈ st.inFlight, ∃ s t,
    .singletonPutRequest forward.index forward.port forward.evicted ∈ (st.cluster.servers s t).sent
  /-- It was stored. -/
  evicted : ∀ s t, ∀ data ∈ st.evicted s t, st.cluster.Stored data.key data.value

/-- What a thread evicts in the cluster's environment was stored. -/
theorem stored_of_evictedBy {cluster : ClusterState} (h : CStringClusterOk c cluster) {s t : ℕ}
    {label : ServerLabel} (henv : CStringEnvironment c cluster (.server s t label))
    {data : EvictionCallbackData}
    (hdata : data ∈ evictedBy (c.serverConfig s t) (cluster.servers s t) label) :
    cluster.Stored data.key data.value := by
  cases label with
  | slotReadCompleted i kv answers =>
    simp only [evictedBy] at hdata
    split at hdata
    · next read rest hqueue =>
      split at hdata
      · next hmatch =>
        obtain ⟨-, hevicted⟩ := h.answersOk henv.1 (h.receivesCString henv) read rest hqueue
        refine hevicted data (Option.mem_toList.mp hdata) ?_
        -- the key is the one expected, which is not the invalid one
        rw [hmatch.1]
        exact ((h.servers s t).pendingReads read (mem_of_dequeueAt hqueue)).valid
      · cases hdata
    · cases hdata
  | _ => cases hdata

/-- A step of a thread. -/
theorem ValuesOk.threadActs {st' : RingState} (h : ValuesOk st)
    (hcluster : CStringClusterOk c st.cluster) {s t : ℕ} {label : ServerLabel}
    (henv : CStringEnvironment c st.cluster (.server s t label))
    (hs : threadActs c st s t label = some st') : ValuesOk st' := by
  obtain ⟨st₁, effects, hmove, hstep, hservers, hflight, hevicted, -⟩ := threadActs_spec hs
  have hsent : (applyEffects st₁ effects).sent
      = (st.cluster.servers s t).sent ++ effects.filterMap packetOf := by
    rw [sent_applyEffects, sent_serverMove hmove]
  have hgrow : ∀ s' t', (st.cluster.servers s' t').sent ⊆ (st'.cluster.servers s' t').sent := by
    intro s' t'
    rw [hservers, update₂_apply]
    split
    · next heq =>
      rw [heq.1, heq.2, hsent]
      exact List.subset_append_left _ _
    · exact List.Subset.refl _
  have hstored : st.cluster.stored ⊆ st'.cluster.stored := by
    rw [stored_clusterStep hstep]
    exact stored_subset_recordPut _ _
  refine ⟨?_, ?_⟩
  · intro forward hmem
    rw [hflight, List.mem_append] at hmem
    rcases hmem with hold | hnew
    · obtain ⟨s', t', hpacket⟩ := h.inFlight forward hold
      exact ⟨s', t', hgrow s' t' hpacket⟩
    · obtain ⟨effect, heffect, hforward⟩ := List.mem_filterMap.mp hnew
      refine ⟨s, t, ?_⟩
      rw [hservers, update₂_self, hsent]
      refine List.mem_append_right _ (List.mem_filterMap.mpr ⟨effect, heffect, ?_⟩)
      cases effect with
      | send packet =>
        cases packet with
        | singletonPutRequest index port evicted => cases hforward; rfl
        | getResponse | putResponse => cases hforward
      | _ => cases hforward
  · intro s' t' data hdata
    rw [hevicted, update₂_apply] at hdata
    split at hdata
    · rw [List.mem_append] at hdata
      rcases hdata with hold | hnew
      · exact hstored (h.evicted s t data hold)
      · exact hstored (stored_of_evictedBy hcluster henv hnew)
    · exact hstored (h.evicted s' t' data hdata)

/-- **The ring is a cluster.** Every step of a ring is one of its cluster, whose environment hands
on only forwards that have been sent. -/
theorem ring_refines_cluster (dataset : Dataset c)
    (hnulFree : ∀ pair ∈ dataset.pairs, NulFree pair.2)
    (h : ReachableUnder (ringStep ring) (RingEnvironment c) (.initial dataset) st) :
    (CStringClusterOk c st.cluster ∧ ValuesOk st) ∧
      ReachableUnder (clusterStep c) (CStringEnvironment c) (.initial dataset) st.cluster := by
  refine ReachableUnder.simulate RingState.cluster
    (I := fun st => CStringClusterOk c st.cluster ∧ ValuesOk st) ?_ ?_ h
  · refine ⟨cStringClusterOk_initial dataset hnulFree, ?_, ?_⟩
    · exact fun forward hmem => absurd hmem List.not_mem_nil
    · exact fun s t data hdata => absurd hdata List.not_mem_nil
  · rintro st label st' ⟨hcluster, hvalues⟩ henv hs
    cases label with
    | server s t label =>
      rw [ringStep] at hs
      split at hs
      · obtain ⟨_, _, -, hstep, -, -, -, -⟩ := threadActs_spec hs
        exact ⟨⟨hcluster.step henv hstep, hvalues.threadActs hcluster henv hs⟩, .single henv hstep⟩
      · cases hs
    | deliver s t i =>
      rw [ringStep, Option.bind_eq_some_iff] at hs
      obtain ⟨⟨forward, rest⟩, hqueue, hs⟩ := hs
      dsimp only at hs
      split at hs
      · obtain ⟨_, _, -, hstep, -, -, -, -⟩ := threadActs_spec hs
        -- the forward has been sent
        obtain ⟨s', t', hsent⟩ := hvalues.inFlight forward (mem_of_dequeueAt hqueue)
        have henv' : CStringEnvironment c st.cluster (.server s t forward.message) :=
          ⟨⟨s', t', forward.index, forward.port, hsent⟩, trivial⟩
        have hrest : ValuesOk { st with inFlight := rest } :=
          ⟨fun forward hmem => hvalues.inFlight forward (mem_of_mem_dequeueAt hqueue hmem),
            hvalues.evicted⟩
        exact ⟨⟨hcluster.step henv' hstep, hrest.threadActs hcluster henv' hs⟩,
          .single henv' hstep⟩
      · cases hs
    | writeSlot s offset kv =>
      rw [ringStep, Option.map_eq_some_iff] at hs
      obtain ⟨cluster, hstep, rfl⟩ := hs
      have henv' : CStringEnvironment c st.cluster (.writeSlot s offset kv) := henv
      refine ⟨⟨hcluster.step henv' hstep, ?_⟩, .single henv' hstep⟩
      cases hstep
      exact ⟨hvalues.inFlight, hvalues.evicted⟩

/-- **Singletons arrive as they were stored.** Where caches, databases and slots behave, what the
next server has been given are pairs that were evicted, unchanged, and each of them was stored. -/
theorem adopted_pairs_stored (dataset : Dataset c)
    (hnulFree : ∀ pair ∈ dataset.pairs, NulFree pair.2)
    (h : ReachableUnder (ringStep ring) (RingEnvironment c) (.initial dataset) st) {s t : ℕ}
    (hthread : ring.IsThread s t) :
    (st.adopted (ring.next s) t).Subperm (st.evicted s t) ∧
      ∀ data ∈ st.adopted (ring.next s) t,
        st.cluster.Stored data.key data.value ∧ IsPair c (data.key, data.value) := by
  obtain ⟨⟨hcluster, hvalues⟩, -⟩ := ring_refines_cluster dataset hnulFree h
  have hok : RingOk ring st := by
    refine h.invariant (I := RingOk ring) (ringOk_initial dataset) ?_
    intro _ _ _ _ hinv _ hs
    exact hinv.step hs
  -- pairs of the dataset survive being sent as C strings
  have hsame : (st.evicted s t).map arrived = st.evicted s t := by
    refine (List.map_congr_left ?_).trans (List.map_id _)
    intro data hdata
    have hpair := hcluster.cStr_eq (hvalues.evicted s t data hdata)
    show ({ data with key := cStr data.key, value := cStr data.value } : EvictionCallbackData)
      = data
    rw [hpair.1, hpair.2]
  have hsub : (st.adopted (ring.next s) t).Subperm (st.evicted s t) := by
    rw [← hsame]
    exact (List.sublist_append_left _ _).subperm.trans (hok.conserved s t hthread).symm.subperm
  refine ⟨hsub, fun data hdata => ?_⟩
  have hstored := hvalues.evicted s t data (hsub.subset hdata)
  exact ⟨hstored, hcluster.stored _ hstored⟩

/-- The environment does nothing wrong in this run. -/
theorem ringEnvironment_evictionRun : EveryStep (ringStep twoServers)
    (RingEnvironment nchanceCluster) (.initial oneStored) evictionRun := by
  refine And.intro ⟨⟨⟨1, by decide, by decide, rfl⟩, Bool.noConfusion⟩, trivial⟩ ?_
  refine And.intro ⟨Or.inr ⟨1, "A", "", List.mem_cons_self, rfl, rfl⟩, trivial⟩ ?_
  refine And.intro ⟨⟨?_, ?_⟩, trivial⟩ (And.intro ⟨trivial, trivial⟩ (And.intro trivial trivial))
  · intro read rest hqueue
    cases hqueue
    exact List.mem_cons_self
  · intro data hdata
    cases hdata
    exact Or.inl List.mem_cons_self

/-- The pair that has arrived in this run. -/
theorem adopted_pairs_stored_two_servers :
    ∃ st, runLabels (ringStep twoServers) (.initial oneStored) evictionRun = some st ∧
      st.adopted 1 0 = [⟨"1", "A", true, 0⟩] ∧
      (st.adopted (twoServers.next 0) 0).Subperm (st.evicted 0 0) ∧
      ∀ data ∈ st.adopted (twoServers.next 0) 0,
        st.cluster.Stored data.key data.value ∧ IsPair nchanceCluster (data.key, data.value) :=
  ⟨_, rfl, rfl, adopted_pairs_stored oneStored (by decide)
    (reachableUnder_of_runLabels evictionRun ringEnvironment_evictionRun rfl) (by decide)⟩

end Values

end TwigKV.Deployment
