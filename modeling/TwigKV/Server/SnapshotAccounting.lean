import TwigKV.Server.HandlerRules

/-! # The accounts of the snapshot

The counters of a snapshot entry are increased by the get handler, by `fetch_from_disk` and by the
callback of an indexed read, on whatever thread these run; the threads of a server share one
snapshot. For each key the accesses are the hits and the misses, and the disk accesses are the local
and the remote ones. A miss leads to one disk access at most: a local one at once, or a remote one
when the slot it has posted a read of turns out to hold another key. What keeps the last account
straight is the reads still to come (`SnapshotInvariant.misses`). -/

namespace TwigKV.Server

/-- Counts a key as 1 if it is `key`. -/
def ofKey (key k : UInt64) : ℕ := if k = key then 1 else 0

/-- Counts an effect that increases a counter of the entry of `key`. -/
def counterWeight (counter : SnapshotCounter) (key : UInt64) : ServerEffect → ℕ
  | .snapshot c k => if c = counter then ofKey key k else 0
  | _ => 0

/-- Counts an effect that posts a read of the slot of `key`. -/
def postWeight (key : UInt64) : ServerEffect → ℕ
  | .readSlot read => ofKey key read.expectedKey
  | _ => 0

/-- The slot reads of `key` under way. -/
def slotReads (st : ServerState) (key : UInt64) : ℕ :=
  weight (fun read : SlotRead => ofKey key read.expectedKey) st.pendingReads

/-- The counters after some effects. -/
theorem snapshot_applyEffects (st : ServerState) (effects : List ServerEffect) (key : UInt64)
    (counter : SnapshotCounter) : (applyEffects st effects).snapshot key counter
      = st.snapshot key counter + weight (counterWeight counter key) effects := by
  induction effects generalizing st with
  | nil => rfl
  | cons effect effects ih =>
    show (applyEffects (applyEffect st effect) effects).snapshot key counter = _
    rw [ih, weight_cons, ← Nat.add_assoc]
    congr 1
    cases effect with
    | snapshot c k =>
      show countSnapshot st.snapshot c k key counter = _
      rw [countSnapshot, counterWeight, ofKey]
      by_cases hcounter : c = counter
      · subst hcounter
        by_cases hkey : k = key
        · subst hkey
          simp
        · simp [hkey, Ne.symm hkey]
      · simp [hcounter, Ne.symm hcounter]
    | _ => rfl

/-- The slot reads under way after some effects. -/
theorem slotReads_applyEffects (st : ServerState) (effects : List ServerEffect) (key : UInt64) :
    slotReads (applyEffects st effects) key
      = slotReads st key + weight (postWeight key) effects := by
  induction effects generalizing st with
  | nil => rfl
  | cons effect effects ih =>
    show slotReads (applyEffects (applyEffect st effect) effects) key = _
    rw [ih, weight_cons, ← Nat.add_assoc]
    congr 1
    cases effect with
    | readSlot read =>
      rw [slotReads, applyEffect, weight_append, weight_cons, weight_nil]
      rfl
    | _ => rfl

/-! ## What the handlers count -/

/-- The accounts of a handler balance for `key`, where `credit` reads of its slot have been taken
from those under way. -/
structure Accounted (key : UInt64) (credit : ℕ) (effects : List ServerEffect) : Prop where
  /-- Accesses are hits and misses. -/
  total : weight (counterWeight .totalAccesses key) effects
    = weight (counterWeight .cacheHits key) effects + weight (counterWeight .cacheMiss key) effects
  /-- Disk accesses are local and remote ones. -/
  disk : weight (counterWeight .diskAccess key) effects
    = weight (counterWeight .localDiskAccess key) effects
      + weight (counterWeight .remoteDiskAccess key) effects
  /-- What goes to the disk, now or perhaps later, is paid for by a miss or by the credit. -/
  misses : weight (counterWeight .localDiskAccess key) effects
      + weight (counterWeight .remoteDiskAccess key) effects + weight (postWeight key) effects
    ≤ weight (counterWeight .cacheMiss key) effects + credit

/-- Effects that neither count anything, but for `access_rate`, nor post a slot read. -/
structure Quiet (effects : List ServerEffect) : Prop where
  /-- Nothing is counted. -/
  counters : ∀ counter, counter ≠ .accessRate → ∀ key,
    weight (counterWeight counter key) effects = 0
  /-- Nothing is posted. -/
  posts : ∀ key, weight (postWeight key) effects = 0

/-- An effect that is neither a count, but for `access_rate`, nor the post of a slot read. -/
structure QuietEffect (effect : ServerEffect) : Prop where
  /-- It counts nothing. -/
  counters : ∀ counter, counter ≠ .accessRate → ∀ key, counterWeight counter key effect = 0
  /-- It posts nothing. -/
  posts : ∀ key, postWeight key effect = 0

/-- Effects are quiet if each of them is. -/
theorem quiet_of_forall {effects : List ServerEffect}
    (h : ∀ effect ∈ effects, QuietEffect effect) : Quiet effects := by
  refine ⟨?_, ?_⟩
  · intro counter hcounter key
    exact weight_eq_zero fun effect hmem => (h effect hmem).counters counter hcounter key
  · intro key
    exact weight_eq_zero fun effect hmem => (h effect hmem).posts key

/-- Quiet effects balance. -/
theorem Quiet.accounted {effects : List ServerEffect} (h : Quiet effects) (key : UInt64)
    (credit : ℕ) : Accounted key credit effects := by
  refine ⟨?_, ?_, ?_⟩
  · rw [h.counters _ (by decide), h.counters _ (by decide), h.counters _ (by decide)]
  · rw [h.counters _ (by decide), h.counters _ (by decide), h.counters _ (by decide)]
  · rw [h.counters _ (by decide), h.counters _ (by decide), h.posts]
    exact Nat.zero_le _

section Handlers

variable {config : ServerConfig} {request : GetRequest} {keyIndex : UInt64}
  {effects : List ServerEffect}

/-- With snapshots a counter is increased. -/
theorem updateSnapshot_enabled (hsnapshot : config.snapshotEnabled = true)
    {counter : SnapshotCounter} (h : updateSnapshot config counter keyIndex = some effects) :
    effects = [.snapshot counter keyIndex] := by
  rw [updateSnapshot, hsnapshot] at h
  simp only [Bool.not_true, Bool.false_eq_true, if_false] at h
  split at h
  · cases h
  · exact (Option.some.inj h).symm

/-- Besides counting, `fetch_from_disk` is quiet. -/
theorem diskRule_quiet : DiskRule config request QuietEffect where
  getAsync := fun _ _ => ⟨fun _ _ _ => rfl, fun _ => rfl⟩
  blockCacheGet := fun _ _ => ⟨fun _ _ _ => rfl, fun _ => rfl⟩
  getResponse := fun _ _ => ⟨fun _ _ _ => rfl, fun _ => rfl⟩

/-- So is the read callback where the slot holds the expected key, but for `access_rate`. -/
theorem matchRule_quiet {read : SlotRead} {kv : RDMACacheIndexKeyValue}
    {answers : CallbackAnswers} : MatchRule config QuietEffect read kv answers where
  putNchance := ⟨fun _ _ _ => rfl, fun _ => rfl⟩
  appendSingletonPutRequest := fun _ _ => ⟨fun _ _ _ => rfl, fun _ => rfl⟩
  putAccessRateMatch := ⟨fun _ _ _ => rfl, fun _ => rfl⟩
  accessRate := ⟨fun _ hcounter _ => if_neg (Ne.symm hcounter), fun _ => rfl⟩
  appendRdmaGetResponse := ⟨fun _ _ _ => rfl, fun _ => rfl⟩

/-- `fetch_from_disk` counts a disk access, and nothing else. -/
theorem fetchFromDisk_counts (hsnapshot : config.snapshotEnabled = true) {addToCache : Bool}
    {disk : DiskAnswers}
    (h : fetchFromDisk config request keyIndex addToCache disk = some effects) :
    ∃ rest, Quiet rest ∧ effects = .snapshot .diskAccess keyIndex :: rest := by
  simp only [fetchFromDisk, Option.bind_eq_bind, Option.bind_eq_some_iff, Option.pure_def,
    Option.some.injEq] at h
  obtain ⟨access, haccess, ⟨reads, value⟩, hreads, rfl⟩ := h
  rw [updateSnapshot_enabled hsnapshot haccess]
  refine ⟨_, quiet_of_forall (List.forall_mem_append.mpr
    ⟨forall_mem_readFromDisk hreads diskRule_quiet, ?_⟩), List.append_assoc _ _ _⟩
  split
  · exact List.forall_mem_singleton.mpr ⟨fun _ _ _ => rfl, fun _ => rfl⟩
  · exact List.forall_mem_nil _

/-- The remote read counts nothing, and posts at most one slot read, of its key, where it finds
one. -/
theorem remoteRead_counts {answers : GetAnswers} {foundInRdma : Bool}
    (h : remoteRead config request keyIndex answers = some (effects, foundInRdma)) :
    (∀ counter key, weight (counterWeight counter key) effects = 0) ∧
      ∀ key, weight (postWeight key) effects ≤ if foundInRdma then ofKey key keyIndex else 0 := by
  unfold remoteRead at h
  split at h
  · rw [Option.some.injEq, readCallback] at h
    split at h
    · cases h
      exact ⟨fun _ _ => rfl, fun _ => le_rfl⟩
    · cases h
      exact ⟨fun _ _ => rfl, fun _ => Nat.zero_le _⟩
  · rw [Option.map_eq_some_iff] at h
    obtain ⟨reads, hreads, heq⟩ := h
    cases heq
    rw [readCorrectNode, Option.bind_eq_some_iff] at hreads
    obtain ⟨_, _, hreads⟩ := hreads
    split at hreads
    · split at hreads
      · cases hreads
        exact ⟨fun _ _ => rfl, fun _ => Nat.zero_le _⟩
      · cases hreads
    · cases hreads
      exact ⟨fun _ _ => rfl, fun _ => Nat.zero_le _⟩

/-- Neither does sending the read buffer. -/
theorem getFromRdma_counts {answers : GetAnswers} {foundInRdma : Bool}
    (h : getFromRdma config request keyIndex answers = some (effects, foundInRdma)) :
    (∀ counter key, weight (counterWeight counter key) effects = 0) ∧
      ∀ key, weight (postWeight key) effects ≤ if foundInRdma then ofKey key keyIndex else 0 := by
  unfold getFromRdma at h
  split at h
  · cases h
    exact ⟨fun _ _ => rfl, fun _ => Nat.zero_le _⟩
  · split at h
    · cases h
    · rw [Option.map_eq_some_iff] at h
      obtain ⟨⟨reads, found⟩, hreads, heq⟩ := h
      cases heq
      obtain ⟨hcounters, hposts⟩ := remoteRead_counts hreads
      refine ⟨?_, ?_⟩
      · intro counter key
        rw [weight_append, hcounters, Nat.zero_add]
        split
        · rfl
        · rfl
      · intro key
        rw [weight_append]
        have hbuffer : ∀ value, weight (postWeight key)
            (if !config.rdmaAsync then [.send (.getResponse request value)] else []) = 0 := by
          intro value
          split
          · rfl
          · rfl
        rw [hbuffer]
        exact hposts key

/-- The get handler's accounts balance. -/
theorem getHandler_accounted (hsnapshot : config.snapshotEnabled = true) {answers : GetAnswers}
    (h : getHandler config request answers = some effects) (key : UInt64) :
    Accounted key 0 effects := by
  simp only [getHandler, Option.bind_eq_bind, Option.bind_eq_some_iff, Option.pure_def,
    Option.some.injEq] at h
  obtain ⟨value, -, outcome, houtcome, total, htotal, rfl⟩ := h
  rw [updateSnapshot_enabled hsnapshot htotal]
  cases hcached : answers.existsInCache with
  | true =>
    rw [hcached, cond_true, getHit, Option.map_eq_some_iff] at houtcome
    obtain ⟨hit, hhit, rfl⟩ := houtcome
    rw [updateSnapshot_enabled hsnapshot hhit]
    refine ⟨?_, ?_, ?_⟩ <;> simp [counterWeight, postWeight]
  | false =>
    rw [hcached, cond_false] at houtcome
    simp only [getMiss, Option.bind_eq_bind, Option.bind_eq_some_iff, Option.pure_def,
      Option.some.injEq] at houtcome
    obtain ⟨miss, hmiss, ⟨rdma, found⟩, hrdma, fetch, hfetch, rfl⟩ := houtcome
    rw [updateSnapshot_enabled hsnapshot hmiss]
    obtain ⟨hcounters, hposts⟩ := getFromRdma_counts hrdma
    have hpost := hposts key
    cases found with
    | true =>
      -- the slot read that may have been posted is paid for by the miss
      cases hfetch
      refine ⟨?_, ?_, ?_⟩ <;> simp [counterWeight, postWeight, hcounters]
      simpa using hpost
    | false =>
      simp only [cond_false, getFromLocalDisk, Option.bind_eq_bind, Option.bind_eq_some_iff,
        Option.pure_def, Option.some.injEq] at hfetch
      obtain ⟨localAccess, hlocal, fetch', hfetch', rfl⟩ := hfetch
      -- no slot read has been posted, so the miss pays for the disk access
      obtain ⟨rest, hquiet, rfl⟩ := fetchFromDisk_counts hsnapshot hfetch'
      rw [updateSnapshot_enabled hsnapshot hlocal]
      have hnone : weight (postWeight key) rdma = 0 := by simpa using hpost
      refine ⟨?_, ?_, ?_⟩ <;>
        simp [counterWeight, postWeight, hcounters, hquiet.counters, hquiet.posts, hnone]

/-- The read callback's accounts balance, with the read it completes as a credit. -/
theorem slotCallback_accounted (hsnapshot : config.snapshotEnabled = true) {read : SlotRead}
    {kv : RDMACacheIndexKeyValue} {answers : CallbackAnswers}
    (h : slotCallback config read kv answers = some effects) (key : UInt64) :
    Accounted key (ofKey key read.expectedKey) effects := by
  unfold slotCallback at h
  split at h
  · exact (quiet_of_forall (forall_mem_slotMatch h matchRule_quiet)).accounted key _
  · simp only [slotMismatch, Option.bind_eq_bind, Option.bind_eq_some_iff, Option.pure_def,
      Option.some.injEq] at h
    obtain ⟨remoteAccess, hremote, fetch, hfetch, rfl⟩ := h
    -- the remote disk access is paid for by the read that is completed
    obtain ⟨rest, hquiet, rfl⟩ := fetchFromDisk_counts hsnapshot hfetch
    rw [updateSnapshot_enabled hsnapshot hremote]
    refine ⟨?_, ?_, ?_⟩ <;>
      simp [counterWeight, postWeight, hquiet.counters, hquiet.posts]

/-- The callback of `get_async` is quiet. -/
theorem quiet_diskCallback {read : DiskRead} {value : String}
    (h : diskCallback config read value = some effects) : Quiet effects :=
  quiet_of_forall (forall_mem_diskCallback h ⟨fun _ _ _ => rfl, fun _ => rfl⟩
    ⟨fun _ _ _ => rfl, fun _ => rfl⟩)

/-- So is sending a queued response. -/
theorem quiet_sendQueued {response : QueuedResponse} (h : sendQueued response = some effects) :
    Quiet effects :=
  quiet_of_forall (forall_mem_sendQueued h ⟨fun _ _ _ => rfl, fun _ => rfl⟩)

/-- What a move takes from the slot reads under way is the credit of its handler. -/
theorem serverMove_accounted (hsnapshot : config.snapshotEnabled = true)
    {st st₁ : ServerState} {label : ServerLabel}
    (h : serverMove config st label = some (st₁, effects)) (key : UInt64) :
    st₁.snapshot = st.snapshot ∧
      ∃ credit, slotReads st key = slotReads st₁ key + credit ∧ Accounted key credit effects := by
  cases serverMove_cases h with
  | receiveGet hget => exact ⟨rfl, 0, rfl, getHandler_accounted hsnapshot hget key⟩
  | receivePut =>
    refine ⟨rfl, 0, rfl, (quiet_of_forall (List.forall_mem_cons.mpr ⟨?_, ?_⟩)).accounted key 0⟩
    · exact ⟨fun _ _ _ => rfl, fun _ => rfl⟩
    · exact List.forall_mem_singleton.mpr ⟨fun _ _ _ => rfl, fun _ => rfl⟩
  | receiveSingletonPut | receiveDelete | blockReadCompleted | sendSingletonPutRequest =>
    refine ⟨rfl, 0, rfl, (quiet_of_forall (List.forall_mem_singleton.mpr ?_)).accounted key 0⟩
    exact ⟨fun _ _ _ => rfl, fun _ => rfl⟩
  | @slotReadCompleted i kv answers read rest _ hqueue hcallback =>
    have htaken := weight_of_dequeueAt (fun read : SlotRead => ofKey key read.expectedKey) hqueue
    refine ⟨rfl, ofKey key read.expectedKey, ?_, slotCallback_accounted hsnapshot hcallback key⟩
    rw [slotReads, htaken, Nat.add_comm]
    rfl
  | diskReadCompleted hqueue hcallback =>
    exact ⟨rfl, 0, rfl, (quiet_diskCallback hcallback).accounted key 0⟩
  | sendRdmaGetResponse hqueue hsend | sendBlockCacheRequest hqueue hsend =>
    exact ⟨rfl, 0, rfl, (quiet_sendQueued hsend).accounted key 0⟩

end Handlers

/-! ## The threads of a server -/

/-- The threads of a server, which share a snapshot. -/
structure ThreadsState (Thread : Type*) where
  /-- What every thread has under way. -/
  threads : Thread → ServerState
  /-- How often each counter of each entry of the snapshot has been increased: the 64-bit counters
  are these numbers modulo `2 ^ 64` (`entries_eq_server`). -/
  snapshot : UInt64 → SnapshotCounter → ℕ

/-- Before the first message. -/
def ThreadsState.initial {Thread : Type*} : ThreadsState Thread where
  threads := fun _ => .initial
  snapshot := fun _ _ => 0

variable {Thread : Type*} [DecidableEq Thread]

/-- A step of a thread, with its callbacks and queues. -/
def threadStep (config : Thread → ServerConfig) (st : ThreadsState Thread)
    (label : Thread × ServerLabel) : Option (ThreadsState Thread) :=
  (serverStep (config label.1) { st.threads label.1 with snapshot := st.snapshot } label.2).map
    fun thread =>
      { threads := Function.update st.threads label.1 thread
        snapshot := thread.snapshot }

variable [Fintype Thread]

/-- The accounts of the shared snapshot. -/
structure SnapshotInvariant (st : ThreadsState Thread) (key : UInt64) : Prop where
  /-- Accesses are hits and misses. -/
  total : st.snapshot key .totalAccesses = st.snapshot key .cacheHits + st.snapshot key .cacheMiss
  /-- Disk accesses are local and remote ones. -/
  disk : st.snapshot key .diskAccess
    = st.snapshot key .localDiskAccess + st.snapshot key .remoteDiskAccess
  /-- A miss goes to the disk once, or has a slot read under way on some thread. -/
  misses : st.snapshot key .localDiskAccess + st.snapshot key .remoteDiskAccess
      + heldWeight (fun thread => slotReads thread key) st.threads
    ≤ st.snapshot key .cacheMiss

/-- Every step of a thread keeps the accounts. -/
theorem SnapshotInvariant.step {config : Thread → ServerConfig}
    (hsnapshot : ∀ t, (config t).snapshotEnabled = true) {st st' : ThreadsState Thread}
    {label : Thread × ServerLabel} {key : UInt64} (h : SnapshotInvariant st key)
    (hs : threadStep config st label = some st') : SnapshotInvariant st' key := by
  obtain ⟨t, label⟩ := label
  simp only [threadStep, serverStep, Option.map_map, Option.map_eq_some_iff] at hs
  obtain ⟨⟨st₁, effects⟩, hmove, rfl⟩ := hs
  obtain ⟨hshared, credit, hreads, haccounted⟩ := serverMove_accounted (hsnapshot t) hmove key
  have hcounter : ∀ counter, (applyEffects st₁ effects).snapshot key counter
      = st.snapshot key counter + weight (counterWeight counter key) effects := by
    intro counter
    rw [snapshot_applyEffects, hshared]
  have hupd := heldWeight_update (fun thread => slotReads thread key) st.threads t
    (applyEffects st₁ effects)
  have hthread : slotReads (st.threads t) key = slotReads st₁ key + credit := hreads
  rw [slotReads_applyEffects, hthread] at hupd
  refine ⟨?_, ?_, ?_⟩
  · show (applyEffects st₁ effects).snapshot key _ = (applyEffects st₁ effects).snapshot key _
      + (applyEffects st₁ effects).snapshot key _
    rw [hcounter, hcounter, hcounter, h.total, haccounted.total]
    omega
  · show (applyEffects st₁ effects).snapshot key _ = (applyEffects st₁ effects).snapshot key _
      + (applyEffects st₁ effects).snapshot key _
    rw [hcounter, hcounter, hcounter, h.disk, haccounted.disk]
    omega
  · show (applyEffects st₁ effects).snapshot key _ + (applyEffects st₁ effects).snapshot key _
      + heldWeight _ (Function.update st.threads t (applyEffects st₁ effects))
      ≤ (applyEffects st₁ effects).snapshot key _
    rw [hcounter, hcounter, hcounter]
    have hmisses := h.misses
    have hpaid := haccounted.misses
    omega

/-- **The snapshot accounts for every access.** With snapshots enabled, after every step of any
interleaving of a server's threads, their read callbacks included, and for every key: the accesses
are the hits and the misses, the disk accesses are the local and the remote ones, and no more of
these than there were misses. -/
theorem snapshot_accounting (config : Thread → ServerConfig)
    (hsnapshot : ∀ t, (config t).snapshotEnabled = true) {st : ThreadsState Thread}
    (h : Reachable (threadStep config) .initial st) (key : UInt64) :
    st.snapshot key .totalAccesses = st.snapshot key .cacheHits + st.snapshot key .cacheMiss ∧
      st.snapshot key .diskAccess
        = st.snapshot key .localDiskAccess + st.snapshot key .remoteDiskAccess ∧
      st.snapshot key .localDiskAccess + st.snapshot key .remoteDiskAccess
        ≤ st.snapshot key .cacheMiss := by
  have hinv : SnapshotInvariant st key := by
    apply h.invariant (I := fun s => SnapshotInvariant s key)
    · have hnone : heldWeight (fun thread => slotReads thread key)
          (fun _ : Thread => ServerState.initial) = 0 := heldWeight_const_zero rfl
      refine ⟨rfl, rfl, ?_⟩
      show 0 + 0 + heldWeight (fun thread => slotReads thread key)
        (fun _ : Thread => ServerState.initial) ≤ 0
      rw [hnone]
    · intro s l s' _ hinv _ hs
      exact hinv.step hsnapshot hs
  exact ⟨hinv.total, hinv.disk, le_trans (Nat.le_add_right _ _) hinv.misses⟩

/-- A server with snapshots. -/
def snapshotConfig : ServerConfig := { indexingConfig true with snapshotEnabled := true }

/-- A get of key `1` that another server's slot turns out not to hold. -/
def lateMismatchRun : List (Unit × ServerLabel) :=
  [((), .receiveGet 1 9000 "1" ⟨false, "", fun _ => 0, true, "B", ⟨"", none⟩⟩),
    ((), .slotReadCompleted 0 ⟨2, "A"⟩ ⟨none, false, ⟨"", none⟩⟩)]

/-- It is a miss that has gone to the disk once. -/
theorem snapshot_accounting_late_mismatch :
    ∃ st, runLabels (threadStep fun _ => snapshotConfig) .initial lateMismatchRun = some st ∧
      st.snapshot 1 .remoteDiskAccess = 1 ∧
      st.snapshot 1 .localDiskAccess + st.snapshot 1 .remoteDiskAccess
        ≤ st.snapshot 1 .cacheMiss := by
  have hrun : ∃ st, runLabels (threadStep fun _ => snapshotConfig) .initial lateMismatchRun
      = some st ∧ st.snapshot 1 .remoteDiskAccess = 1 := ⟨_, rfl, rfl⟩
  obtain ⟨st, hst, hremote⟩ := hrun
  exact ⟨st, hst, hremote, (snapshot_accounting (fun _ => snapshotConfig) (fun _ => rfl)
    (reachable_of_runLabels _ hst) 1).2.2⟩

end TwigKV.Server
