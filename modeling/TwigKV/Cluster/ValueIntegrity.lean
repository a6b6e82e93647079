import TwigKV.Cluster.Machine

/-! # Value integrity

The replicas of the index may be arbitrarily stale, so that a read can find any slot. The key in the
slot is compared with the one asked for, and that is enough as long as no value received contains a
NUL byte: whatever is put in a cache, forwarded to another server or sent as the reply to a get is a
value that was stored under its key at some time (`value_integrity`). The handlers of put and
singleton put requests read values as C strings. One that contains a NUL byte is cut when it is
forwarded, and the server that receives it caches a value never stored (`forwarded_value_cut`). -/

namespace TwigKV.Cluster

open Server

/-- Pairs put in caches and carried by packets were stored. -/
structure ValueIntegrity (st : ClusterState) : Prop where
  /-- The pairs put in every cache. -/
  caches : ∀ s, ∀ pair ∈ st.cache s, pair ∈ st.stored
  /-- Singleton put requests, and replies as values of the keys asked for. -/
  packets : ∀ s t, ∀ packet ∈ (st.servers s t).sent, PacketOk st.Stored packet

/-- The invariant of a cluster. -/
structure ClusterOk (c : ClusterConfig) (st : ClusterState) : Prop where
  /-- What has been stored are pairs of the dataset. -/
  stored : ∀ pair ∈ st.stored, IsPair c pair
  /-- The pairs put in every cache were stored. -/
  caches : ∀ s, ∀ pair ∈ st.cache s, pair ∈ st.stored
  /-- The pairs put in every database were stored. -/
  disks : ∀ s, ∀ pair ∈ st.disk s, pair ∈ st.stored
  /-- Every slot has held stored pairs only. -/
  slots : ∀ s offset, ∀ kv ∈ st.slots s offset, HoldsStored c st kv
  /-- So do the messages and queues of every thread. -/
  servers : ∀ s t, ServerOk c.keyInvalid st.Stored (st.servers s t)

variable {c : ClusterConfig} {st : ClusterState}

/-- The invariant holds initially. -/
theorem clusterOk_initial (dataset : Dataset c) : ClusterOk c (.initial dataset) where
  stored := dataset.isPair
  caches := fun _ _ hmem => hmem
  disks := fun _ _ hmem => hmem
  slots := fun _ _ _ hmem => absurd hmem List.not_mem_nil
  servers := fun _ _ => serverOk_initial

/-! ## Reading stored pairs -/

/-- A key of the dataset survives being sent as a C string. -/
theorem IsKey.cStr_eq {key : String} (h : IsKey c key) : cStr key = key := by
  obtain ⟨k, -, -, rfl⟩ := h
  exact cStr_of_nulFree (nulFree_toString k)

/-- A thread that reads a slot with a stored pair finds this pair. -/
theorem ClusterOk.slotOk (h : ClusterOk c st) {kv : RDMACacheIndexKeyValue}
    (hkv : HoldsStored c st kv) (s t : ℕ) :
    SlotOk (c.serverConfig s t) c.keyInvalid st.Stored kv := by
  refine hkv.imp_right ?_
  rintro ⟨k, value, padding, hstored, hkey, hdata⟩
  have hpair := h.stored _ hstored
  -- the key is small enough for 64 bits
  obtain ⟨k', -, hle, hk'⟩ := hpair.key
  have heq : k = k' := toString_injective hk'
  have hbound : k < 2 ^ 64 := by
    have hinvalid := c.keyInvalid_gt
    have hword := c.keyInvalid.toNat_lt
    omega
  -- and the value has just the size that is read
  have hview : valueView (c.serverConfig s t) kv.data = value := by
    have hsize : value.toList.length = (c.serverConfig s t).valueSize := by
      rw [String.length_toList, c.valueSize_eq]
      exact hpair.size
    rw [valueView, hdata, String.toList_append, ← hsize, List.take_left', String.ofList_toList]
    rfl
  rw [hview, hkey, UInt64.toNat_ofNat_of_lt' hbound]
  exact hstored

/-! ## Steps -/

/-- An effect with a stored pair. -/
theorem ClusterOk.applyToStores (h : ClusterOk c st) (s : ℕ) {effect : ServerEffect}
    (heffect : EffectOk c.keyInvalid st.Stored effect) :
    ClusterOk c (applyToStores s st effect) := by
  have hput : ∀ key value, st.Stored key value → ClusterOk c (putInCache st s key value) := by
    intro key value hstored
    refine { h with caches := ?_ }
    intro s' pair hpair
    rw [putInCache] at hpair
    by_cases hs : s' = s
    · subst hs
      simp only [Function.update_self] at hpair
      exact forall_mem_concat (h.caches s') hstored pair hpair
    · simp only [Function.update_of_ne hs] at hpair
      exact h.caches s' pair hpair
  cases effect with
  | blockCachePut key value =>
    refine { hput key value heffect with disks := ?_ }
    intro s' pair hpair
    rw [Cluster.applyToStores] at hpair
    by_cases hs : s' = s
    · subst hs
      simp only [Function.update_self] at hpair
      exact forall_mem_concat (h.disks s') heffect pair hpair
    · simp only [Function.update_of_ne hs] at hpair
      exact h.disks s' pair hpair
  | blockCacheGet key value | cachePut key value | putNchance key value
  | putAccessRateMatch key value | putSingleton key value => exact hput key value heffect
  | send | snapshot | deleteKey | updateLocalKey | readSlot | readBlock | getAsync
  | appendRdmaGetResponse | appendBlockCacheRequest | appendSingletonPutRequest => exact h

/-- Effects on caches and databases store nothing new. -/
theorem stored_applyToStores (s : ℕ) (effect : ServerEffect) :
    (applyToStores s st effect).stored = st.stored := by
  cases effect <;> rfl

/-- A list of effects with stored pairs. -/
theorem ClusterOk.foldl_applyToStores (h : ClusterOk c st) (s : ℕ) {effects : List ServerEffect}
    (heffects : ∀ effect ∈ effects, EffectOk c.keyInvalid st.Stored effect) :
    ClusterOk c (effects.foldl (Cluster.applyToStores s) st) := by
  induction effects generalizing st with
  | nil => exact h
  | cons effect effects ih =>
    refine ih (h.applyToStores s (heffects effect List.mem_cons_self)) ?_
    have hsame : (Cluster.applyToStores s st effect).Stored = st.Stored := by
      unfold ClusterState.Stored
      rw [stored_applyToStores]
    rw [hsame]
    exact fun e he => heffects e (List.mem_cons_of_mem _ he)

/-- A put of a pair of the dataset. -/
theorem ClusterOk.recordPut (h : ClusterOk c st) {s t : ℕ} {label : ServerLabel}
    (henv : EnvironmentOk c st (.server s t label))
    (hreceives : ReceivesCString (.server s t label)) : ClusterOk c (recordPut st label) := by
  cases label with
  | receivePut remoteIndex key value =>
    have hpair : IsPair c (cStr key, cStr value) := by
      rw [cStr_of_nulFree hreceives]
      exact henv
    have hsub : ∀ pair ∈ st.stored, pair ∈ st.stored ++ [(cStr key, cStr value)] :=
      fun pair hpair => List.mem_append_left _ hpair
    exact {
      stored := forall_mem_concat h.stored hpair
      caches := fun s' pair hpair => hsub pair (h.caches s' pair hpair)
      disks := fun s' pair hpair => hsub pair (h.disks s' pair hpair)
      slots := by
        intro s' offset kv hkv
        refine (h.slots s' offset kv hkv).imp_right ?_
        rintro ⟨k, v, padding, hstored, hkey, hdata⟩
        exact ⟨k, v, padding, hsub _ hstored, hkey, hdata⟩
      servers := fun s' t' => (h.servers s' t').mono fun _ _ hstored => hsub _ hstored }
  | receiveGet | receiveSingletonPut | receiveDelete | slotReadCompleted | blockReadCompleted
  | diskReadCompleted | sendRdmaGetResponse | sendBlockCacheRequest | sendSingletonPutRequest =>
    exact h

/-- The environment's answers are stored pairs. -/
theorem ClusterOk.answersOk (h : ClusterOk c st) {s t : ℕ} {label : ServerLabel}
    (henv : EnvironmentOk c st (.server s t label))
    (hreceives : ReceivesCString (.server s t label)) :
    AnswersOk (c.serverConfig s t) c.keyInvalid (Cluster.recordPut st label).Stored
      (st.servers s t) label := by
  cases label with
  | receiveGet remoteIndex remotePort key answers =>
    obtain ⟨⟨k, -, hle, hk⟩, hcached⟩ := henv
    have hinvalid := c.keyInvalid_gt
    exact ⟨⟨k, hk, by omega⟩, fun hexists => h.caches s _ (hcached hexists)⟩
  | receivePut remoteIndex key value => exact List.mem_append_right _ List.mem_cons_self
  | receiveSingletonPut key value singleton forwardCount =>
    obtain ⟨s', t', index, port, hsent⟩ := henv
    have hstored : st.Stored key value := (h.servers s' t').sent _ hsent
    show st.Stored (cStr key) (cStr value)
    rw [(h.stored _ hstored).key.cStr_eq, cStr_of_nulFree hreceives]
    exact hstored
  | slotReadCompleted i kv answers =>
    obtain ⟨hslot, hevicted⟩ := henv
    intro read rest hqueue
    have hok := h.slotOk (h.slots _ _ kv (hslot read rest hqueue)) s t
    refine ⟨hok, ?_⟩
    intro data hdata hvalid
    cases hevicted data hdata with
    | inl hold => exact h.caches s _ hold
    | inr hnew =>
      -- the cache evicts the pair it has just been given
      rw [Prod.mk.injEq] at hnew
      rw [hnew.1, hnew.2]
      exact hok.resolve_left hvalid
  | diskReadCompleted i value =>
    intro read rest hqueue
    exact h.disks s _ (henv read rest hqueue)
  | receiveDelete | blockReadCompleted | sendRdmaGetResponse | sendBlockCacheRequest
  | sendSingletonPutRequest => trivial

/-- A put changes neither the threads nor what they have sent. -/
theorem recordPut_servers (label : ServerLabel) : (recordPut st label).servers = st.servers := by
  cases label <;> rfl

/-- Every step keeps the invariant. -/
theorem ClusterOk.step (h : ClusterOk c st) {st' : ClusterState} {label : ClusterLabel}
    (henv : EnvironmentOk c st label) (hreceives : ReceivesCString label)
    (hs : clusterStep c st label = some st') : ClusterOk c st' := by
  cases label with
  | server s t label =>
    simp only [clusterStep, Option.map_eq_some_iff] at hs
    obtain ⟨⟨server, effects⟩, hmove, rfl⟩ := hs
    have hput := h.recordPut henv hreceives
    have hserver := hput.servers s t
    rw [recordPut_servers] at hserver
    obtain ⟨hmoved, heffects⟩ :=
      serverOk_serverMove (c.asyncIndexing s t) hserver (h.answersOk henv hreceives) hmove
    refine ClusterOk.foldl_applyToStores ?_ s heffects
    refine { hput with servers := ?_ }
    intro s' t'
    show ServerOk c.keyInvalid _ (update₂ st.servers s t (applyEffects server effects) s' t')
    rw [update₂_apply]
    split
    · exact hmoved.applyEffects heffects
    · have hother := hput.servers s' t'
      rw [recordPut_servers] at hother
      exact hother
  | writeSlot s offset kv =>
    cases hs
    refine { h with slots := ?_ }
    intro s' offset' kv' hkv'
    simp only [update₂_apply] at hkv'
    split at hkv'
    · next hsame =>
      rw [List.mem_cons] at hkv'
      cases hkv' with
      | inl hnew =>
        rw [hnew]
        exact henv
      | inr hold => exact h.slots s offset kv' hold
    · exact h.slots s' offset' kv' hkv'

/-! ## Stored C strings -/

/-- The invariant of a cluster in which no stored value contains a NUL byte. -/
structure CStringClusterOk (c : ClusterConfig) (st : ClusterState) : Prop
    extends ClusterOk c st where
  /-- The stored values are C strings. -/
  nulFree : ∀ pair ∈ st.stored, NulFree pair.2

/-- The invariant holds initially. -/
theorem cStringClusterOk_initial (dataset : Dataset c)
    (hnulFree : ∀ pair ∈ dataset.pairs, NulFree pair.2) : CStringClusterOk c (.initial dataset) :=
  ⟨clusterOk_initial dataset, hnulFree⟩

/-- A pair of C strings survives being sent. -/
theorem CStringClusterOk.cStr_eq (h : CStringClusterOk c st) {pair : String × String}
    (hpair : pair ∈ st.stored) : cStr pair.1 = pair.1 ∧ cStr pair.2 = pair.2 :=
  ⟨(h.stored pair hpair).key.cStr_eq, cStr_of_nulFree (h.nulFree pair hpair)⟩

/-- Singleton put requests then have values without NUL bytes. -/
theorem CStringClusterOk.receivesCString (h : CStringClusterOk c st) {label : ClusterLabel}
    (henv : CStringEnvironment c st label) : ReceivesCString label := by
  obtain ⟨henv, hputs⟩ := henv
  cases label with
  | server s t label =>
    cases label with
    | receivePut => exact hputs
    | receiveSingletonPut key value singleton forwardCount =>
      obtain ⟨s', t', index, port, hsent⟩ := henv
      exact h.nulFree _ ((h.servers s' t').sent _ hsent)
    | receiveGet | receiveDelete | slotReadCompleted | blockReadCompleted | diskReadCompleted
    | sendRdmaGetResponse | sendBlockCacheRequest | sendSingletonPutRequest => trivial
  | writeSlot => trivial

/-- A put of a pair of C strings. -/
theorem CStringClusterOk.recordPut (h : CStringClusterOk c st) {s t : ℕ} {label : ServerLabel}
    (henv : CStringEnvironment c st (.server s t label)) :
    CStringClusterOk c (recordPut st label) := by
  refine ⟨h.toClusterOk.recordPut henv.1 (h.receivesCString henv), ?_⟩
  cases label with
  | receivePut remoteIndex key value =>
    refine forall_mem_concat h.nulFree ?_
    rw [cStr_of_nulFree henv.2]
    exact henv.2
  | receiveGet | receiveSingletonPut | receiveDelete | slotReadCompleted | blockReadCompleted
  | diskReadCompleted | sendRdmaGetResponse | sendBlockCacheRequest | sendSingletonPutRequest =>
    exact h.nulFree

/-- What is stored after a step of a thread. -/
theorem stored_clusterStep {s t : ℕ} {label : ServerLabel} {st' : ClusterState}
    (h : clusterStep c st (.server s t label) = some st') :
    st'.stored = (recordPut st label).stored := by
  simp only [clusterStep, Option.map_eq_some_iff] at h
  obtain ⟨⟨server, effects⟩, -, rfl⟩ := h
  have hfold : ∀ (effects : List ServerEffect) (st : ClusterState),
      (effects.foldl (Cluster.applyToStores s) st).stored = st.stored := by
    intro effects
    induction effects with
    | nil => exact fun _ => rfl
    | cons effect effects ih =>
      intro st
      rw [List.foldl_cons, ih, stored_applyToStores]
  rw [hfold]

/-- Every step keeps the invariant. -/
theorem CStringClusterOk.step (h : CStringClusterOk c st) {st' : ClusterState}
    {label : ClusterLabel} (henv : CStringEnvironment c st label)
    (hs : clusterStep c st label = some st') : CStringClusterOk c st' := by
  refine ⟨h.toClusterOk.step henv.1 (h.receivesCString henv) hs, ?_⟩
  cases label with
  | server s t label =>
    rw [stored_clusterStep hs]
    exact (h.recordPut henv).nulFree
  | writeSlot s offset kv =>
    cases hs
    exact h.nulFree

/-! ## Runs -/

/-- **Value integrity.** In every run that receives no put or singleton put request with a NUL byte
in its value, with index replicas of any content, every pair put in a cache or carried by a
singleton put request, and every key asked for with the value replied, is a pair that was stored at
some time. -/
theorem value_integrity (dataset : Dataset c)
    (h : ReachableUnder (clusterStep c)
      (fun st label => EnvironmentOk c st label ∧ ReceivesCString label) (.initial dataset) st) :
    ValueIntegrity st := by
  have hok : ClusterOk c st := by
    refine h.invariant (I := ClusterOk c) (clusterOk_initial dataset) ?_
    intro s l s' _ hinv henv hs
    exact hinv.step henv.1 henv.2 hs
  refine ⟨hok.caches, ?_⟩
  intro s t packet hpacket
  exact (hok.servers s t).sent packet hpacket

/-- A cluster of servers with three keys. -/
def indexingCluster : ClusterConfig where
  serverConfig := fun _ _ => indexingConfig true
  asyncIndexing := fun _ _ => ⟨rfl, rfl, rfl, rfl⟩
  valueSize := 1
  valueSize_eq := fun _ _ => rfl
  numKeyValuePairs := 3
  keyInvalid := -1
  keyInvalid_gt := by decide

/-- One stored pair. -/
def onePair : Dataset indexingCluster where
  pairs := [("1", "A")]
  isPair := List.forall_mem_singleton.mpr ⟨⟨1, by decide, by decide, rfl⟩, rfl⟩

/-- A get of the pair's key that another machine's slot answers. -/
def remoteGetRun : List ClusterLabel :=
  [.server 0 0 (.receiveGet 5 9000 "1" ⟨false, "", fun _ => 0, true, "", ⟨"", none⟩⟩),
    .writeSlot 1 0 ⟨1, "A"⟩,
    .server 0 0 (.slotReadCompleted 0 ⟨1, "A"⟩ ⟨none, false, ⟨"", none⟩⟩),
    .server 0 0 (.sendRdmaGetResponse 0)]

/-- The environment does nothing wrong in this run. -/
theorem environmentOk_remoteGetRun : EveryStep (clusterStep indexingCluster)
    (fun st label => EnvironmentOk indexingCluster st label ∧ ReceivesCString label)
    (.initial onePair) remoteGetRun := by
  refine ⟨⟨⟨⟨1, by decide, by decide, rfl⟩, Bool.noConfusion⟩, trivial⟩, ?_⟩
  refine ⟨⟨Or.inr ⟨1, "A", "", List.mem_cons_self, rfl, rfl⟩, trivial⟩, ?_⟩
  refine ⟨⟨⟨?_, ?_⟩, trivial⟩, ⟨trivial, trivial⟩, trivial⟩
  · intro read rest hqueue
    cases hqueue
    exact List.mem_cons_self
  · intro data hdata
    cases hdata

/-- The reply of this run carries the stored pair. -/
theorem value_integrity_remote_get :
    ∃ st, runLabels (clusterStep indexingCluster) (.initial onePair) remoteGetRun = some st ∧
      (st.servers 0 0).sent = [.getResponse ⟨0, 5, 9000, "1"⟩ "A"] ∧ ValueIntegrity st :=
  ⟨_, rfl, rfl, value_integrity onePair
    (reachableUnder_of_runLabels remoteGetRun environmentOk_remoteGetRun rfl)⟩

/-! ## A value with a NUL byte -/

/-- A cluster of two servers that forward what their caches evict; values have three bytes. -/
def forwardingCluster : ClusterConfig where
  serverConfig := fun s _ =>
    { indexingConfig true with
      policyType := .nchance, numServers := 2, baseIndex := s, valueSize := 3 }
  asyncIndexing := fun _ _ => ⟨rfl, rfl, rfl, rfl⟩
  valueSize := 3
  valueSize_eq := fun _ _ => rfl
  numKeyValuePairs := 3
  keyInvalid := -1
  keyInvalid_gt := indexingCluster.keyInvalid_gt

/-- One stored pair, whose value has a NUL byte in the middle. -/
def nulPair : Dataset forwardingCluster where
  pairs := [("1", "A\x00B")]
  isPair := List.forall_mem_singleton.mpr ⟨⟨1, by decide, by decide, rfl⟩, rfl⟩

/-- Machine 0 reads the pair from a slot of machine 1, its cache evicts the pair again, and machine
1 receives it as a singleton put request. -/
def forwardRun : List ClusterLabel :=
  [.server 0 0 (.receiveGet 5 9000 "1" ⟨false, "", fun _ => 0, true, "", ⟨"", none⟩⟩),
    .writeSlot 1 0 ⟨1, "A\x00B"⟩,
    .server 0 0 (.slotReadCompleted 0 ⟨1, "A\x00B"⟩
      ⟨some ⟨"1", "A\x00B", true, 0⟩, false, ⟨"", none⟩⟩),
    .server 0 0 (.sendSingletonPutRequest 0),
    .server 1 0 (.receiveSingletonPut "1" "A\x00B" true 0)]

/-- The environment does nothing wrong in this run. -/
theorem environmentOk_forwardRun : EveryStep (clusterStep forwardingCluster)
    (EnvironmentOk forwardingCluster) (.initial nulPair) forwardRun := by
  refine And.intro ⟨⟨1, by decide, by decide, rfl⟩, Bool.noConfusion⟩ ?_
  refine And.intro (Or.inr ⟨1, "A\x00B", "", List.mem_cons_self, rfl, rfl⟩) ?_
  refine And.intro ⟨?_, ?_⟩ (And.intro trivial (And.intro ?_ trivial))
  · intro read rest hqueue
    cases hqueue
    exact List.mem_cons_self
  · intro data hdata
    cases hdata
    exact Or.inl List.mem_cons_self
  · exact ⟨0, 0, 4, 8000, List.mem_cons_self⟩

/-- The value is cut at the NUL byte when it is forwarded: machine 1 caches a value never stored. -/
theorem forwarded_value_cut :
    ∃ st, ReachableUnder (clusterStep forwardingCluster) (EnvironmentOk forwardingCluster)
      (.initial nulPair) st ∧ ("1", "A") ∈ st.cache 1 ∧ ¬ ValueIntegrity st := by
  refine ⟨_, reachableUnder_of_runLabels forwardRun environmentOk_forwardRun rfl, ?_, ?_⟩
  · exact List.mem_cons_of_mem _ List.mem_cons_self
  · intro hok
    have hstored := hok.caches 1 ("1", "A") (List.mem_cons_of_mem _ List.mem_cons_self)
    rcases List.mem_cons.mp hstored with heq | hnil
    · exact absurd heq (by decide)
    · exact absurd hnil List.not_mem_nil

end TwigKV.Cluster
