import TwigKV.Server.SnapshotAccounting

/-! # The entries of the snapshot (`ldc.h`)

`Snapshot` keeps a vector of `NUM_KEY_VALUE_PAIRS` entries, the entry at position `i` for key `i`.
Its update functions take the key for the position, after two tests that let a key through up to and
with `NUM_KEY_VALUE_PAIRS`. The keys of the dataset are `1..NUM_KEY_VALUE_PAIRS`, so that the entry
of the last one lies behind the vector.

On all other keys the vector is a map from keys to counters (`runUpdates_refines`), the one that the
handlers of the server count in (`entries_eq_server`). -/

namespace TwigKV.Server

open TwigKV.Placement (datasetKeys)

/-- The counters of an entry. -/
inductive EntryCounter where
  /-- `total_accesses`. -/
  | totalAccesses
  /-- `cache_hits`. -/
  | cacheHits
  /-- `cache_miss`. -/
  | cacheMiss
  /-- `evicted`. -/
  | evicted
  /-- `disk_access`. -/
  | diskAccess
  /-- `local_disk_access`. -/
  | localDiskAccess
  /-- `remote_disk_access`. -/
  | remoteDiskAccess
  /-- `access_rate`. -/
  | accessRate
deriving DecidableEq, Repr

/-- `SnapshotEntry`. -/
structure SnapshotEntry where
  /-- `key_index`. -/
  keyIndex : UInt64
  /-- `total_accesses`. -/
  totalAccesses : UInt64
  /-- `cache_hits`. -/
  cacheHits : UInt64
  /-- `cache_miss`. -/
  cacheMiss : UInt64
  /-- `evicted`. -/
  evicted : UInt64
  /-- `disk_access`. -/
  diskAccess : UInt64
  /-- `local_disk_access`. -/
  localDiskAccess : UInt64
  /-- `remote_disk_access`. -/
  remoteDiskAccess : UInt64
  /-- `access_rate`. -/
  accessRate : UInt64
deriving DecidableEq, Repr

/-- A counter of an entry. -/
def SnapshotEntry.value (e : SnapshotEntry) : EntryCounter → UInt64
  | .totalAccesses => e.totalAccesses
  | .cacheHits => e.cacheHits
  | .cacheMiss => e.cacheMiss
  | .evicted => e.evicted
  | .diskAccess => e.diskAccess
  | .localDiskAccess => e.localDiskAccess
  | .remoteDiskAccess => e.remoteDiskAccess
  | .accessRate => e.accessRate

/-- A counter of an entry is increased. -/
def SnapshotEntry.increment (counter : EntryCounter) (e : SnapshotEntry) : SnapshotEntry :=
  match counter with
  | .totalAccesses => { e with totalAccesses := e.totalAccesses + 1 }
  | .cacheHits => { e with cacheHits := e.cacheHits + 1 }
  | .cacheMiss => { e with cacheMiss := e.cacheMiss + 1 }
  | .evicted => { e with evicted := e.evicted + 1 }
  | .diskAccess => { e with diskAccess := e.diskAccess + 1 }
  | .localDiskAccess => { e with localDiskAccess := e.localDiskAccess + 1 }
  | .remoteDiskAccess => { e with remoteDiskAccess := e.remoteDiskAccess + 1 }
  | .accessRate => { e with accessRate := e.accessRate + 1 }

/-- The key of an entry stays. -/
@[simp] theorem SnapshotEntry.keyIndex_increment (counter : EntryCounter) (e : SnapshotEntry) :
    (e.increment counter).keyIndex = e.keyIndex := by
  cases counter <;> rfl

/-- One counter is increased and the others stay. -/
theorem SnapshotEntry.value_increment (counter c : EntryCounter) (e : SnapshotEntry) :
    (e.increment counter).value c = e.value c + if c = counter then 1 else 0 := by
  cases counter <;> cases c <;> simp [increment, value]

/-- How an update stops the process or leaves what the language defines. -/
inductive SnapshotFault where
  /-- `panic`, with its text. -/
  | panic (text : String)
  /-- A position outside `entries` is read and written. -/
  | outOfRange
deriving DecidableEq, Repr

/-- `Snapshot`. -/
structure Snapshot where
  /-- `ops_config`. -/
  opsConfig : Configuration
  /-- `ops_config.dump_snapshot_period_ms`. -/
  dumpSnapshotPeriodMs : ℤ
  /-- `entries`. -/
  entries : List SnapshotEntry

/-- `enabled`. -/
def Snapshot.enabled (snapshot : Snapshot) : Bool := snapshot.dumpSnapshotPeriodMs != 0

/-- The constructor of `Snapshot`. -/
def Snapshot.create (opsConfig : Configuration) (dumpSnapshotPeriodMs : ℤ) : Snapshot where
  opsConfig := opsConfig
  dumpSnapshotPeriodMs := dumpSnapshotPeriodMs
  entries :=
    if dumpSnapshotPeriodMs != 0 then
      (List.range opsConfig.numKeyValuePairs).map fun i => ⟨UInt64.ofNat i, 0, 0, 0, 0, 0, 0, 0, 0⟩
    else []

/-- The text of the panics, with the tag of the function. -/
def outOfBounds (function : String) (key : UInt64) (bound : ℕ) : String :=
  "[SnapshotEntry]" ++ function ++ " Getting entry out of bounds " ++ toString key.toNat ++ " > " ++
    toString bound

/-- `get_entry`: the position of the entry it returns a reference to. -/
def getEntry (snapshot : Snapshot) (key : UInt64) : Except SnapshotFault ℕ :=
  if snapshot.opsConfig.numKeyValuePairs < key.toNat then
    .error (.panic (outOfBounds "" key snapshot.opsConfig.numKeyValuePairs))
  else if key.toNat < snapshot.entries.length then .ok key.toNat
  else .error .outOfRange

/-- The body of the update functions. -/
def updateEntry (function : String) (counter : EntryCounter) (snapshot : Snapshot) (key : UInt64) :
    Except SnapshotFault Snapshot :=
  if !snapshot.enabled then .ok snapshot
  else if snapshot.opsConfig.numKeyValuePairs < key.toNat then
    .error (.panic (outOfBounds function key snapshot.opsConfig.numKeyValuePairs))
  else
    (getEntry snapshot key).map fun i =>
      { snapshot with entries := snapshot.entries.modify i (SnapshotEntry.increment counter) }

/-- `update_total_access`. -/
def updateTotalAccess : Snapshot → UInt64 → Except SnapshotFault Snapshot :=
  updateEntry " [update_total_access]" .totalAccesses

/-- `update_cache_hits`. -/
def updateCacheHits : Snapshot → UInt64 → Except SnapshotFault Snapshot :=
  updateEntry " [update_cache_hits]" .cacheHits

/-- `update_cache_miss`. -/
def updateCacheMiss : Snapshot → UInt64 → Except SnapshotFault Snapshot :=
  updateEntry " [update_cache_miss]" .cacheMiss

/-- `update_evicted`. -/
def updateEvicted : Snapshot → UInt64 → Except SnapshotFault Snapshot :=
  updateEntry " [update_evicted]" .evicted

/-- `update_disk_access`. -/
def updateDiskAccess : Snapshot → UInt64 → Except SnapshotFault Snapshot :=
  updateEntry " [update_disk_access]" .diskAccess

/-- `update_local_disk_access`. -/
def updateLocalDiskAccess : Snapshot → UInt64 → Except SnapshotFault Snapshot :=
  updateEntry " [update_local_disk_access]" .localDiskAccess

/-- `update_remote_disk_access`. -/
def updateRemoteDiskAccess : Snapshot → UInt64 → Except SnapshotFault Snapshot :=
  updateEntry " [update_remote_disk_access]" .remoteDiskAccess

/-- `update_access_rate`. -/
def updateAccessRate : Snapshot → UInt64 → Except SnapshotFault Snapshot :=
  updateEntry " [update_access_rate]" .accessRate

/-- A call of an update function: which counter it is for, and the key. -/
structure SnapshotUpdate where
  /-- The counter. -/
  counter : EntryCounter
  /-- The key. -/
  key : UInt64
deriving DecidableEq, Repr

/-- The call. -/
def SnapshotUpdate.apply (snapshot : Snapshot) (update : SnapshotUpdate) :
    Except SnapshotFault Snapshot :=
  match update.counter with
  | .totalAccesses => updateTotalAccess snapshot update.key
  | .cacheHits => updateCacheHits snapshot update.key
  | .cacheMiss => updateCacheMiss snapshot update.key
  | .evicted => updateEvicted snapshot update.key
  | .diskAccess => updateDiskAccess snapshot update.key
  | .localDiskAccess => updateLocalDiskAccess snapshot update.key
  | .remoteDiskAccess => updateRemoteDiskAccess snapshot update.key
  | .accessRate => updateAccessRate snapshot update.key

/-- A sequence of calls. -/
def runUpdates (snapshot : Snapshot) (updates : List SnapshotUpdate) :
    Except SnapshotFault Snapshot :=
  updates.foldlM SnapshotUpdate.apply snapshot

/-- **One counter of the entry of a key is increased**, and no other entry or counter changes. -/
def Increments (before after : List SnapshotEntry) (update : SnapshotUpdate) : Prop :=
  ∃ i, (∃ e, before[i]? = some e ∧ e.keyIndex = update.key) ∧
    (∀ j e, before[j]? = some e → e.keyIndex = update.key → j = i) ∧
    after = before.modify i (SnapshotEntry.increment update.counter)

/-- **The snapshot is a map of counters**: in a sequence of calls every call returns, and if the
snapshot is enabled it increases the counter of its key only. -/
def RefinesCounterMap (opsConfig : Configuration) (dumpSnapshotPeriodMs : ℤ)
    (updates : List SnapshotUpdate) : Prop :=
  ∀ before update after, updates = before ++ update :: after →
    ∃ snapshot snapshot',
      runUpdates (.create opsConfig dumpSnapshotPeriodMs) before = .ok snapshot ∧
      update.apply snapshot = .ok snapshot' ∧
      if snapshot.enabled then Increments snapshot.entries snapshot'.entries update
      else snapshot' = snapshot

/-! ## One call -/

/-- All update functions have the same body. -/
theorem SnapshotUpdate.apply_eq (snapshot : Snapshot) (update : SnapshotUpdate) :
    ∃ function, update.apply snapshot
      = updateEntry function update.counter snapshot update.key := by
  obtain ⟨counter, key⟩ := update
  cases counter <;> exact ⟨_, rfl⟩

/-- A snapshot made by the constructor and updated since. -/
structure CreatedWith (opsConfig : Configuration) (dumpSnapshotPeriodMs : ℤ) (snapshot : Snapshot) :
    Prop where
  /-- The configuration. -/
  opsConfig_eq : snapshot.opsConfig = opsConfig
  /-- The period. -/
  period_eq : snapshot.dumpSnapshotPeriodMs = dumpSnapshotPeriodMs
  /-- The entries are those of the keys `0..NUM_KEY_VALUE_PAIRS - 1`. -/
  keyIndex_eq : dumpSnapshotPeriodMs ≠ 0 → snapshot.entries.map SnapshotEntry.keyIndex
    = (List.range opsConfig.numKeyValuePairs).map UInt64.ofNat

variable {opsConfig : Configuration} {period : ℤ} {snapshot : Snapshot}

/-- The constructor. -/
theorem createdWith_create (opsConfig : Configuration) (period : ℤ) :
    CreatedWith opsConfig period (.create opsConfig period) := by
  refine ⟨rfl, rfl, fun hne => ?_⟩
  rw [Snapshot.create]
  simp only
  rw [if_pos (bne_iff_ne.mpr hne), List.map_map]
  rfl

/-- The snapshot is enabled if the period is not zero. -/
theorem CreatedWith.enabled_eq (h : CreatedWith opsConfig period snapshot) :
    snapshot.enabled = (period != 0) := by
  rw [Snapshot.enabled, h.period_eq]

/-- The number of entries. -/
theorem CreatedWith.length_entries (h : CreatedWith opsConfig period snapshot) (hne : period ≠ 0) :
    snapshot.entries.length = opsConfig.numKeyValuePairs := by
  have hlength := congrArg List.length (h.keyIndex_eq hne)
  rw [List.length_map, List.length_map, List.length_range] at hlength
  exact hlength

/-- The key of the entry at a position. -/
theorem CreatedWith.keyIndex_of_getElem? (h : CreatedWith opsConfig period snapshot)
    (hne : period ≠ 0) {i : ℕ} {e : SnapshotEntry} (he : snapshot.entries[i]? = some e) :
    i < opsConfig.numKeyValuePairs ∧ e.keyIndex = UInt64.ofNat i := by
  have hi : i < opsConfig.numKeyValuePairs := by
    rw [← h.length_entries hne]
    exact (List.getElem?_eq_some_iff.mp he).1
  have hkey := congrArg (fun l => l[i]?) (h.keyIndex_eq hne)
  simp only [List.getElem?_map, he, List.getElem?_range hi, Option.map_some,
    Option.some.injEq] at hkey
  exact ⟨hi, hkey⟩

/-- An update of a key that has an entry. -/
theorem CreatedWith.apply_eq_ok (h : CreatedWith opsConfig period snapshot) (hne : period ≠ 0)
    {update : SnapshotUpdate} (hkey : update.key.toNat < opsConfig.numKeyValuePairs) :
    update.apply snapshot = .ok { snapshot with
      entries := snapshot.entries.modify update.key.toNat
        (SnapshotEntry.increment update.counter) } := by
  obtain ⟨function, happly⟩ := update.apply_eq snapshot
  have henabled : (!snapshot.enabled) = false := by
    rw [h.enabled_eq, bne_iff_ne.mpr hne]
    rfl
  rw [happly, updateEntry, henabled, if_neg Bool.false_ne_true, h.opsConfig_eq, if_neg (by omega),
    getEntry, h.opsConfig_eq, if_neg (by omega), h.length_entries hne, if_pos hkey]
  rfl

/-- An update of the last key passes both tests and leaves the entries. -/
theorem CreatedWith.apply_last (h : CreatedWith opsConfig period snapshot) (hne : period ≠ 0)
    {update : SnapshotUpdate} (hkey : update.key.toNat = opsConfig.numKeyValuePairs) :
    update.apply snapshot = .error .outOfRange := by
  obtain ⟨function, happly⟩ := update.apply_eq snapshot
  have henabled : (!snapshot.enabled) = false := by
    rw [h.enabled_eq, bne_iff_ne.mpr hne]
    rfl
  rw [happly, updateEntry, henabled, if_neg Bool.false_ne_true, h.opsConfig_eq, if_neg (by omega),
    getEntry, h.opsConfig_eq, if_neg (by omega), h.length_entries hne, if_neg (by omega)]
  rfl

/-- A disabled snapshot does not change. -/
theorem CreatedWith.apply_disabled (h : CreatedWith opsConfig 0 snapshot)
    (update : SnapshotUpdate) :
    update.apply snapshot = .ok snapshot := by
  obtain ⟨function, happly⟩ := update.apply_eq snapshot
  rw [happly, updateEntry, h.enabled_eq]
  rfl

/-- An update keeps what the constructor has made. -/
theorem CreatedWith.apply (h : CreatedWith opsConfig period snapshot) {update : SnapshotUpdate}
    {snapshot' : Snapshot} (happly : update.apply snapshot = .ok snapshot') :
    CreatedWith opsConfig period snapshot' := by
  by_cases hzero : period = 0
  · subst hzero
    rw [h.apply_disabled, Except.ok.injEq] at happly
    rwa [← happly]
  · obtain ⟨function, heq⟩ := update.apply_eq snapshot
    have henabled : (!snapshot.enabled) = false := by
      rw [h.enabled_eq, bne_iff_ne.mpr hzero]
      rfl
    rw [heq, updateEntry, henabled, if_neg Bool.false_ne_true] at happly
    split at happly
    · cases happly
    · cases hentry : getEntry snapshot update.key with
      | error fault =>
        rw [hentry] at happly
        cases happly
      | ok i =>
        rw [hentry] at happly
        cases happly
        refine ⟨h.opsConfig_eq, h.period_eq, fun hne => ?_⟩
        rw [← h.keyIndex_eq hne]
        apply List.ext_getElem?
        intro j
        rw [List.getElem?_map, List.getElem?_map, List.getElem?_modify]
        cases snapshot.entries[j]? with
        | none => rfl
        | some e =>
          rw [Option.map_eq_map, Option.map_some, Option.map_some, Option.map_some]
          split
          · rw [SnapshotEntry.keyIndex_increment]
          · rfl

/-- An update of a key that has an entry increases its counter. -/
theorem CreatedWith.increments (h : CreatedWith opsConfig period snapshot) (hne : period ≠ 0)
    (hN : opsConfig.numKeyValuePairs < 2 ^ 31) {update : SnapshotUpdate}
    (hkey : update.key.toNat < opsConfig.numKeyValuePairs) :
    Increments snapshot.entries
      (snapshot.entries.modify update.key.toNat (SnapshotEntry.increment update.counter))
        update := by
  have hlength : update.key.toNat < snapshot.entries.length := by
    rw [h.length_entries hne]
    exact hkey
  refine ⟨update.key.toNat, ⟨snapshot.entries[update.key.toNat], ?_, ?_⟩, ?_, rfl⟩
  · exact List.getElem?_eq_getElem hlength
  · rw [(h.keyIndex_of_getElem? hne (List.getElem?_eq_getElem hlength)).2, UInt64.ofNat_toNat]
  · intro j e he hkeyIndex
    obtain ⟨hj, hofNat⟩ := h.keyIndex_of_getElem? hne he
    rw [← hkeyIndex, hofNat, UInt64.toNat_ofNat_of_lt' (by rw [UInt64.size]; omega)]

/-! ## A sequence of calls -/

/-- A sequence of calls that returns keeps what the constructor has made. -/
theorem CreatedWith.runUpdates (h : CreatedWith opsConfig period snapshot)
    {updates : List SnapshotUpdate} {snapshot' : Snapshot}
    (hrun : runUpdates snapshot updates = .ok snapshot') :
    CreatedWith opsConfig period snapshot' := by
  induction updates generalizing snapshot with
  | nil =>
      cases hrun
      exact h
  | cons update updates ih =>
      rw [Server.runUpdates, List.foldlM_cons] at hrun
      cases happly : update.apply snapshot with
      | error fault =>
        rw [happly] at hrun
        cases hrun
      | ok next =>
        rw [happly] at hrun
        exact ih (h.apply happly) hrun

/-- Calls whose keys have an entry, or on a disabled snapshot, return. -/
theorem CreatedWith.exists_runUpdates (h : CreatedWith opsConfig period snapshot)
    {updates : List SnapshotUpdate}
    (hkeys : period = 0 ∨ ∀ u ∈ updates, u.key.toNat < opsConfig.numKeyValuePairs) :
    ∃ snapshot', Server.runUpdates snapshot updates = .ok snapshot' := by
  induction updates generalizing snapshot with
  | nil => exact ⟨snapshot, rfl⟩
  | cons update updates ih =>
      have happly : ∃ next, update.apply snapshot = .ok next := by
        by_cases hzero : period = 0
        · subst hzero
          exact ⟨_, h.apply_disabled update⟩
        · have hall := hkeys.resolve_left hzero
          exact ⟨_, h.apply_eq_ok hzero (hall update List.mem_cons_self)⟩
      obtain ⟨next, hnext⟩ := happly
      obtain ⟨snapshot', hrun⟩ := ih (h.apply hnext) (hkeys.imp id fun hall u hu =>
        hall u (List.mem_cons_of_mem _ hu))
      refine ⟨snapshot', ?_⟩
      rw [Server.runUpdates, List.foldlM_cons, hnext]
      exact hrun

/-- **When the snapshot is a map of counters.** For every number of keys and every sequence of calls
on keys of the dataset: every call returns and increases the counter of its key only, if and only if
the snapshot is disabled or no call is on the last key. -/
theorem refinesCounterMap_iff {opsConfig : Configuration}
    (hN : opsConfig.numKeyValuePairs < 2 ^ 31) (period : ℤ) {updates : List SnapshotUpdate}
    (hkeys : ∀ u ∈ updates, u.key.toNat ∈ datasetKeys opsConfig) :
    RefinesCounterMap opsConfig period updates ↔
      period = 0 ∨ ∀ u ∈ updates, u.key.toNat ≠ opsConfig.numKeyValuePairs := by
  have hcreate := createdWith_create opsConfig period
  constructor
  · intro h
    by_contra hnot
    push Not at hnot
    obtain ⟨hne, update, hmem, hlast⟩ := hnot
    obtain ⟨before, after, rfl⟩ := List.append_of_mem hmem
    obtain ⟨snapshot, snapshot', hrun, happly, -⟩ := h before update after rfl
    rw [(hcreate.runUpdates hrun).apply_last hne hlast] at happly
    cases happly
  · rintro h before update after rfl
    have hlt : period = 0 ∨ ∀ u ∈ before ++ update :: after,
        u.key.toNat < opsConfig.numKeyValuePairs := by
      refine h.imp id fun hall u hu => ?_
      have hle := (hkeys u hu).2
      have hne := hall u hu
      omega
    obtain ⟨snapshot, hrun⟩ := hcreate.exists_runUpdates
      (hlt.imp id fun hall u hu => hall u (List.mem_append_left _ hu))
    have hcreated := hcreate.runUpdates hrun
    refine ⟨snapshot, ?_⟩
    by_cases hzero : period = 0
    · subst hzero
      refine ⟨snapshot, hrun, hcreated.apply_disabled update, ?_⟩
      rw [hcreated.enabled_eq, if_neg (by decide)]
    · have hkey := hlt.resolve_left hzero update
        (List.mem_append_right _ List.mem_cons_self)
      refine ⟨_, hrun, hcreated.apply_eq_ok hzero hkey, ?_⟩
      rw [hcreated.enabled_eq, if_pos (bne_iff_ne.mpr hzero)]
      exact hcreated.increments hzero hN hkey

/-- Two keys and calls on the first. -/
theorem refinesCounterMap_iff_first :
    RefinesCounterMap ⟨2, 1⟩ 100 [⟨.cacheHits, 1⟩, ⟨.evicted, 1⟩] :=
  (@refinesCounterMap_iff ⟨2, 1⟩ (by decide) 100 [⟨.cacheHits, 1⟩, ⟨.evicted, 1⟩]
    (by simp [datasetKeys])).mpr (Or.inr (by simp))

/-- A call on the only key of a dataset leaves the entries. -/
theorem not_refinesCounterMap_one : ¬ RefinesCounterMap ⟨1, 1⟩ 100 [⟨.totalAccesses, 1⟩] := by
  intro h
  obtain ⟨snapshot, snapshot', hrun, happly, -⟩ := h [] ⟨.totalAccesses, 1⟩ [] rfl
  cases hrun
  rw [(createdWith_create ⟨1, 1⟩ 100).apply_last (by decide) rfl] at happly
  cases happly

/-! ## The map of counters -/

/-- The entries hold a map of counters. -/
def HoldsCounters (entries : List SnapshotEntry) (counters : UInt64 → EntryCounter → UInt64) :
    Prop :=
  ∀ e ∈ entries, ∀ counter, e.value counter = counters e.keyIndex counter

/-- A counter of a key is increased in the map. -/
def countIn (counters : UInt64 → EntryCounter → UInt64) (update : SnapshotUpdate) :
    UInt64 → EntryCounter → UInt64 :=
  fun key counter => counters key counter + if ⟨counter, key⟩ = update then 1 else 0

/-- What increases a counter of an entry increases it in the map. -/
theorem Increments.holdsCounters {before after : List SnapshotEntry} {update : SnapshotUpdate}
    (h : Increments before after update) {counters : UInt64 → EntryCounter → UInt64}
    (hholds : HoldsCounters before counters) : HoldsCounters after (countIn counters update) := by
  obtain ⟨i, ⟨e₀, he₀, hkey₀⟩, hunique, rfl⟩ := h
  intro e he counter
  obtain ⟨j, hj⟩ := List.mem_iff_getElem?.mp he
  rw [List.getElem?_modify, Option.map_eq_map, Option.map_eq_some_iff] at hj
  obtain ⟨e', he', rfl⟩ := hj
  have hvalue := hholds e' (List.mem_of_getElem? he') counter
  rw [countIn]
  split
  · next hij =>
    subst hij
    rw [he₀, Option.some.injEq] at he'
    subst he'
    rw [SnapshotEntry.value_increment, SnapshotEntry.keyIndex_increment, hvalue, hkey₀]
    congr 1
    cases update
    simp
  · next hij =>
    have hkey : e'.keyIndex ≠ update.key := fun heq => hij (hunique j e' he' heq).symm
    rw [hvalue, if_neg fun heq => hkey (congrArg SnapshotUpdate.key heq), UInt64.add_zero]

/-- **The entries refine the map.** Calls on keys that have an entry return, and the entries then
hold the map that the calls make of the one they held before. -/
theorem runUpdates_refines (h : CreatedWith opsConfig period snapshot) (hne : period ≠ 0)
    (hN : opsConfig.numKeyValuePairs < 2 ^ 31) {updates : List SnapshotUpdate}
    (hkeys : ∀ u ∈ updates, u.key.toNat < opsConfig.numKeyValuePairs)
    {counters : UInt64 → EntryCounter → UInt64} (hholds : HoldsCounters snapshot.entries counters) :
    ∃ snapshot', runUpdates snapshot updates = .ok snapshot' ∧
      HoldsCounters snapshot'.entries (updates.foldl countIn counters) := by
  induction updates generalizing snapshot counters with
  | nil => exact ⟨snapshot, rfl, hholds⟩
  | cons update updates ih =>
      have hkey := hkeys update List.mem_cons_self
      have happly := h.apply_eq_ok hne hkey
      have hnext := (h.increments hne hN hkey).holdsCounters hholds
      obtain ⟨snapshot', hrun, hholds'⟩ :=
        ih (h.apply happly) (fun u hu => hkeys u (List.mem_cons_of_mem _ hu)) hnext
      refine ⟨snapshot', ?_, hholds'⟩
      rw [runUpdates, List.foldlM_cons, happly]
      exact hrun

/-- The constructor sets all counters to zero. -/
theorem holdsCounters_create (opsConfig : Configuration) (period : ℤ) :
    HoldsCounters (Snapshot.create opsConfig period).entries fun _ _ => 0 := by
  intro e he counter
  rw [Snapshot.create] at he
  simp only at he
  split at he
  · obtain ⟨i, -, rfl⟩ := List.mem_map.mp he
    cases counter <;> rfl
  · exact absurd he List.not_mem_nil

/-- What a sequence of calls adds to a counter of the map. -/
theorem foldl_countIn (updates : List SnapshotUpdate) (counters : UInt64 → EntryCounter → UInt64)
    (key : UInt64) (counter : EntryCounter) : updates.foldl countIn counters key counter
      = counters key counter + UInt64.ofNat (updates.count ⟨counter, key⟩) := by
  induction updates generalizing counters with
  | nil => exact (UInt64.add_zero _).symm
  | cons update updates ih =>
      rw [List.foldl_cons, ih, countIn, List.count_cons, UInt64.ofNat_add, UInt64.add_assoc,
        UInt64.add_comm (UInt64.ofNat _)]
      by_cases heq : update = ⟨counter, key⟩
      · rw [if_pos heq.symm, if_pos (beq_iff_eq.mpr heq)]
        rfl
      · rw [if_neg (Ne.symm heq), if_neg fun h => heq (beq_iff_eq.mp h)]
        rfl

/-! ## The counters of the server -/

/-- The counter of an entry that a handler increases. -/
def SnapshotCounter.entryCounter : SnapshotCounter → EntryCounter
  | .totalAccesses => .totalAccesses
  | .cacheHits => .cacheHits
  | .cacheMiss => .cacheMiss
  | .diskAccess => .diskAccess
  | .localDiskAccess => .localDiskAccess
  | .remoteDiskAccess => .remoteDiskAccess
  | .accessRate => .accessRate

/-- Handlers increase different counters of an entry. -/
theorem SnapshotCounter.entryCounter_inj {c c' : SnapshotCounter} :
    c.entryCounter = c'.entryCounter ↔ c = c' := by
  cases c <;> cases c' <;> decide

/-- The call that an effect stands for. -/
def updateOf : ServerEffect → Option SnapshotUpdate
  | .snapshot counter key => some ⟨counter.entryCounter, key⟩
  | _ => none

/-- What some effects add to a counter of the server. -/
theorem weight_counterWeight_eq_count (counter : SnapshotCounter) (key : UInt64)
    (effects : List ServerEffect) : weight (counterWeight counter key) effects
      = (effects.filterMap updateOf).count ⟨counter.entryCounter, key⟩ := by
  induction effects with
  | nil => rfl
  | cons effect effects ih =>
    rw [weight_cons, ih]
    cases effect with
    | snapshot c k =>
      have hcall : updateOf (.snapshot c k) = some ⟨c.entryCounter, k⟩ := rfl
      rw [List.filterMap_cons_some hcall, List.count_cons, Nat.add_comm, counterWeight, ofKey]
      congr 1
      simp only [beq_iff_eq, SnapshotUpdate.mk.injEq, SnapshotCounter.entryCounter_inj]
      by_cases hc : c = counter
      · by_cases hk : k = key
        · rw [if_pos hc, if_pos hk, if_pos ⟨hc, hk⟩]
        · rw [if_pos hc, if_neg hk, if_neg fun h => hk h.2]
      · rw [if_neg hc, if_neg fun h => hc h.1]
    | _ => exact Nat.zero_add _

/-- **The entries hold what the server counts.** Where the handlers of a server have counted keys
that have an entry, the entries hold its counters, as far as an unsigned number of 64 bits can. -/
theorem entries_eq_server (opsConfig : Configuration) (hN : opsConfig.numKeyValuePairs < 2 ^ 31)
    {period : ℤ} (hne : period ≠ 0) {effects : List ServerEffect}
    (hkeys : ∀ u ∈ effects.filterMap updateOf, u.key.toNat < opsConfig.numKeyValuePairs) :
    ∃ snapshot, runUpdates (.create opsConfig period) (effects.filterMap updateOf) = .ok snapshot ∧
      ∀ e ∈ snapshot.entries, ∀ counter : SnapshotCounter, e.value counter.entryCounter
        = UInt64.ofNat ((applyEffects .initial effects).snapshot e.keyIndex counter) := by
  obtain ⟨snapshot, hrun, hholds⟩ := runUpdates_refines (createdWith_create opsConfig period) hne hN
    hkeys (holdsCounters_create opsConfig period)
  refine ⟨snapshot, hrun, fun e he counter => ?_⟩
  rw [hholds e he, foldl_countIn, snapshot_applyEffects, weight_counterWeight_eq_count,
    UInt64.zero_add]
  congr 1
  exact (Nat.zero_add _).symm

end TwigKV.Server
