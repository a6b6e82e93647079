import TwigKV.Server.Machine
import Mathlib.Tactic.SplitIfs

/-! # Synchronous and asynchronous disk reads

`fetch_from_disk` reads the database in the calling thread, or with `DISK_ASYNC` lets it call back.
A run of misses is followed here in either mode, with the database's value for every key: what each
miss asks the local cache to insert and what is returned to its client.

The two modes are one policy but for two things (`disk_modes_agree_iff`). With
`operations_pollute_cache` off only the asynchronous callback inserts a key of this server, and the
loop sends what the callbacks have queued only with `block_db.async`. -/

namespace TwigKV.Server

/-- A natural number as a 64-bit one. -/
theorem ofInt_natCast (n : ℕ) : UInt64.ofInt n = UInt64.ofNat n := by
  apply UInt64.toNat.inj
  rw [UInt64.ofInt, UInt64.toNat_ofNat', UInt64.toNat_ofNat']
  omega

/-- `stoull` reads what `stoi` reads, as a 64-bit number. -/
theorem stoull_of_stoi {text : String} {value : ℤ} (h : stoi text = some value) :
    stoull text = some (UInt64.ofInt value) := by
  rw [stoi, Option.bind_eq_some_iff] at h
  obtain ⟨⟨negative, magnitude⟩, hscan, hvalue⟩ := h
  rw [stoull, hscan, Option.bind_some]
  cases negative with
  | true =>
    simp only [if_true] at hvalue ⊢
    split at hvalue
    · next hrange =>
      cases hvalue
      rw [if_pos (by omega), UInt64.ofInt_neg, ofInt_natCast]
    · cases hvalue
  | false =>
    simp only [Bool.false_eq_true, if_false] at hvalue ⊢
    split at hvalue
    · next hrange =>
      cases hvalue
      rw [if_pos (by omega), ofInt_natCast]
    · cases hvalue

/-- A miss that comes to `fetch_from_disk`: the handler has read its key and counted it. -/
structure Miss (config : ServerConfig) where
  /-- The machine of the client. -/
  remoteIndex : ℕ
  /-- Its port. -/
  remotePort : ℕ
  /-- The key. -/
  key : String
  /-- `key_index`. -/
  keyIndex : ℤ
  /-- `add_to_cache`. -/
  addToCache : Bool
  /-- `std::stoi` has read the key. -/
  parsed : stoi key = some keyIndex
  /-- `update_cache_miss` has found the key in the snapshot. -/
  counted : updateSnapshot config .cacheMiss (.ofInt keyIndex) ≠ none

variable {config : ServerConfig}

/-- The request of miss number `id`. -/
def Miss.request (m : Miss config) (id : ℕ) : GetRequest := ⟨id, m.remoteIndex, m.remotePort, m.key⟩

/-- A server in one of the two modes. -/
def diskMode (config : ServerConfig) (diskAsync : Bool) : ServerConfig :=
  { config with diskAsync := diskAsync }

/-- A run of misses. -/
structure DiskRun (config : ServerConfig) where
  /-- The server. -/
  server : ServerState
  /-- The misses so far; a miss is named by its position. -/
  misses : List (Miss config)
  /-- What each miss has asked the local cache to insert. -/
  insertions : ℕ → List (String × String)

/-- Before the first miss. -/
def DiskRun.initial (config : ServerConfig) : DiskRun config where
  server := .initial
  misses := []
  insertions := fun _ => []

/-- What happens next. -/
inductive DiskLabel (config : ServerConfig) where
  /-- A handler calls `fetch_from_disk`. -/
  | fetch (m : Miss config)
  /-- The database runs a callback. -/
  | diskReadCompleted (i : ℕ)
  /-- The loop sends a queued response. -/
  | sendBlockCacheRequest (i : ℕ)

/-- The pair that an effect asks the local cache to insert. `block_cache->get` on a miss inserts
what it has read. -/
def cacheInsertion : ServerEffect → Option (String × String)
  | .blockCacheGet key value | .cachePut key value => some (key, value)
  | _ => none

/-- What the handler of miss `id` does. -/
def DiskRun.record (run : DiskRun config) (id : ℕ) (server : ServerState)
    (effects : List ServerEffect) : DiskRun config :=
  { run with
    server := applyEffects server effects
    insertions := Function.update run.insertions id
      (run.insertions id ++ effects.filterMap cacheInsertion) }

/-- One step in the mode `diskAsync`, over a database that holds the value `db key` for every
key. -/
def diskStep (config : ServerConfig) (diskAsync : Bool) (db : String → String)
    (run : DiskRun config) : DiskLabel config → Option (DiskRun config)
  | .fetch m =>
      let id := run.misses.length
      (fetchFromDisk (diskMode config diskAsync) (m.request id) (.ofInt m.keyIndex) m.addToCache
        ⟨db m.key, some (db m.key)⟩).map
        ({ run with misses := run.misses ++ [m] }.record id run.server ·)
  | .diskReadCompleted i => do
      let (read, rest) ← dequeueAt run.server.pendingDisk i
      (diskCallback (diskMode config diskAsync) read (db read.request.key)).map
        (run.record read.request.id { run.server with pendingDisk := rest } ·)
  | .sendBlockCacheRequest i =>
      if !config.blockDbAsync then none
      else do
        let (response, rest) ← dequeueAt run.server.blockCacheRequestQueue i
        (sendQueued response).map
          (run.record response.request.id { run.server with blockCacheRequestQueue := rest } ·)

/-- The value a packet returns to the client of miss `id`. -/
def answerTo (id : ℕ) : ServerPacket → Option String
  | .getResponse request value => if request.id = id then some value else none
  | _ => none

/-- What has been returned to the client of miss `id`. -/
def DiskRun.returned (run : DiskRun config) (id : ℕ) : List String :=
  run.server.sent.filterMap (answerTo id)

/-- All callbacks have run and all responses that the loop sends have been sent. -/
def DiskRun.Settled (run : DiskRun config) : Prop :=
  run.server.pendingDisk = [] ∧
    (config.blockDbAsync = true → run.server.blockCacheRequestQueue = [])

/-- A complete run in the mode `diskAsync`. -/
def CompleteRun (config : ServerConfig) (diskAsync : Bool) (db : String → String)
    (run : DiskRun config) : Prop :=
  Reachable (diskStep config diskAsync db) (.initial config) run ∧ run.Settled

/-- Two runs agree on every miss: the same insertions and the same values returned. -/
def RunsAgree (run run' : DiskRun config) : Prop :=
  ∀ id, id < run.misses.length →
    run.insertions id = run'.insertions id ∧ run.returned id = run'.returned id

/-- Only the asynchronous callback inserts the key of the miss: operations do not pollute the cache,
but the key is one of this server and was not found elsewhere. -/
def Miss.OnlyAsyncInserts (m : Miss config) : Prop :=
  config.operationsPolluteCache = false ∧ m.addToCache = true ∧
    config.keyMin ≤ .ofInt m.keyIndex ∧ .ofInt m.keyIndex < config.keyMax

/-! ## What the handlers do -/

/-- `update_disk_access` of a miss. -/
def missAccess (m : Miss config) : List ServerEffect :=
  if config.snapshotEnabled then [.snapshot .diskAccess (.ofInt m.keyIndex)] else []

/-- The callback passed to `get_async` for a miss. -/
def Miss.callback (m : Miss config) : DiskCallback :=
  if config.operationsPolluteCache && m.addToCache then .addToCache else .checkRange m.addToCache

/-- What a miss asks the local cache to insert in the mode `diskAsync`. -/
def Miss.insertions (m : Miss config) (diskAsync : Bool) (value : String) :
    List (String × String) :=
  if config.operationsPolluteCache && m.addToCache then [(m.key, value)]
  else if diskAsync && m.addToCache
      && (config.keyMin ≤ UInt64.ofInt m.keyIndex ∧ UInt64.ofInt m.keyIndex < config.keyMax) then
    [(m.key, value)]
  else []

/-- A miss that has been counted is counted again. -/
theorem updateSnapshot_diskAccess (m : Miss config) (diskAsync : Bool) :
    updateSnapshot (diskMode config diskAsync) .diskAccess (.ofInt m.keyIndex)
      = some (missAccess m) := by
  have hcounted := m.counted
  rw [updateSnapshot] at hcounted
  show (if !config.snapshotEnabled then some []
    else if config.opsConfig.numKeyValuePairs < (UInt64.ofInt m.keyIndex).toNat then none
    else some [ServerEffect.snapshot .diskAccess (.ofInt m.keyIndex)]) = _
  rw [missAccess]
  cases hsnapshot : config.snapshotEnabled with
  | false => rfl
  | true =>
    rw [hsnapshot] at hcounted
    have hbound : ¬ config.opsConfig.numKeyValuePairs < (UInt64.ofInt m.keyIndex).toNat := by
      intro hbeyond
      exact hcounted (if_pos hbeyond)
    simp only [Bool.not_true, Bool.false_eq_true, if_false, if_neg hbound, if_true]

/-- The asynchronous mode reads with `get_async`. -/
theorem fetchFromDisk_async (m : Miss config) (id : ℕ) (disk : DiskAnswers) :
    fetchFromDisk (diskMode config true) (m.request id) (.ofInt m.keyIndex) m.addToCache disk
      = some (missAccess m ++ [.getAsync ⟨m.request id, m.callback⟩]) := by
  rw [fetchFromDisk, updateSnapshot_diskAccess, readFromDisk, Miss.callback]
  cases hadd : (config.operationsPolluteCache && m.addToCache) with
  | true => simp [diskMode, hadd]
  | false => simp [diskMode, hadd]

/-- The synchronous mode reads at once and sends the response. -/
theorem fetchFromDisk_sync (m : Miss config) (id : ℕ) (value : String) :
    ∃ reads, fetchFromDisk (diskMode config false) (m.request id) (.ofInt m.keyIndex) m.addToCache
        ⟨value, some value⟩
        = some (missAccess m ++ reads ++ [.send (.getResponse (m.request id) value)]) ∧
      (reads = [] ∨ reads = [.blockCacheGet m.key value]) ∧
      reads.filterMap cacheInsertion = m.insertions false value := by
  rw [fetchFromDisk, updateSnapshot_diskAccess, readFromDisk, Miss.insertions]
  cases hadd : (config.operationsPolluteCache && m.addToCache) with
  | true =>
    refine ⟨[.blockCacheGet m.key value], ?_, Or.inr rfl, rfl⟩
    simp only [diskMode, hadd]
    rfl
  | false =>
    refine ⟨[], ?_, Or.inl rfl, ?_⟩
    · simp only [diskMode, hadd]
      rfl
    · rfl

/-- The callback of a miss inserts its pair under the asynchronous rule, and queues the response. -/
theorem diskCallback_miss (m : Miss config) (id : ℕ) (value : String) :
    ∃ puts, diskCallback (diskMode config true) ⟨m.request id, m.callback⟩ value
        = some (puts ++ [.appendBlockCacheRequest ⟨m.request id, .ok, value⟩]) ∧
      (puts = [] ∨ puts = [.cachePut m.key value]) ∧
      puts.filterMap cacheInsertion = m.insertions true value := by
  rw [diskCallback, Miss.insertions, Miss.callback]
  cases hadd : (config.operationsPolluteCache && m.addToCache) with
  | true => exact ⟨[.cachePut m.key value], rfl, Or.inr rfl, rfl⟩
  | false =>
    simp only [Bool.false_eq_true, if_false]
    cases hcache : m.addToCache with
    | false => exact ⟨[], rfl, Or.inl rfl, rfl⟩
    | true =>
      show ∃ puts, Option.map _ ((stoull m.key).map _) = _ ∧ _
      rw [stoull_of_stoi m.parsed]
      by_cases hrange : config.keyMin ≤ UInt64.ofInt m.keyIndex
          ∧ UInt64.ofInt m.keyIndex < config.keyMax
      · refine ⟨[.cachePut m.key value], ?_, Or.inr rfl, ?_⟩
        · simp [diskMode, hrange, Miss.request]
        · simp only [hrange, Bool.true_and, decide_true, and_self, if_true]
          rfl
      · refine ⟨[], ?_, Or.inl rfl, ?_⟩
        · simp [diskMode, hrange]
        · simp only [hrange, Bool.true_and, decide_false, Bool.false_eq_true, if_false]
          rfl

/-! ## The run -/

/-- How many reads of miss `id` are under way in the database. -/
def DiskRun.reading (run : DiskRun config) (id : ℕ) : ℕ :=
  weight (fun read : DiskRead => if read.request.id = id then 1 else 0) run.server.pendingDisk

/-- How many responses to miss `id` are queued. -/
def DiskRun.queued (run : DiskRun config) (id : ℕ) : ℕ :=
  weight (fun response : QueuedResponse => if response.request.id = id then 1 else 0)
    run.server.blockCacheRequestQueue

/-- What holds during a run in the mode `diskAsync`. -/
structure DiskInvariant (diskAsync : Bool) (db : String → String) (run : DiskRun config) :
    Prop where
  /-- The reads under way are those of misses. -/
  reads : ∀ read ∈ run.server.pendingDisk, ∃ m, run.misses[read.request.id]? = some m ∧
    read = ⟨m.request read.request.id, m.callback⟩
  /-- The queued responses are those to misses, with the database's value. -/
  responses : ∀ response ∈ run.server.blockCacheRequestQueue, ∃ m,
    run.misses[response.request.id]? = some m ∧
      response = ⟨m.request response.request.id, .ok, db m.key⟩
  /-- A miss is being read, or its response is queued, or its value has been returned. -/
  once : ∀ id, id < run.misses.length →
    run.reading id + run.queued id + (run.returned id).length = 1
  /-- A miss has inserted what its mode inserts, unless it is being read. -/
  inserted : ∀ id m, run.misses[id]? = some m →
    run.insertions id = if run.reading id = 0 then m.insertions diskAsync (db m.key) else []
  /-- The values returned are those of the database. -/
  values : ∀ id m, run.misses[id]? = some m → ∀ value ∈ run.returned id, value = db m.key
  /-- Nothing has been done for misses to come. -/
  fresh : ∀ id, run.misses.length ≤ id → run.insertions id = [] ∧ run.returned id = []
  /-- The synchronous mode leaves nothing behind. -/
  sync : diskAsync = false →
    run.server.pendingDisk = [] ∧ run.server.blockCacheRequestQueue = []
  /-- Without `block_db.async` the asynchronous mode returns nothing. -/
  unsent : diskAsync = true → config.blockDbAsync = false → ∀ id, run.returned id = []

/-- An element of a list with one more. -/
theorem getElem?_concat_cases {α : Type*} {l : List α} {a x : α} {i : ℕ}
    (h : (l ++ [a])[i]? = some x) : l[i]? = some x ∨ i = l.length ∧ x = a := by
  rcases Nat.lt_trichotomy i l.length with hlt | heq | hgt
  · rw [List.getElem?_append_left hlt] at h
    exact Or.inl h
  · rw [heq, List.getElem?_concat_length] at h
    exact Or.inr ⟨heq, (Option.some.inj h).symm⟩
  · rw [List.getElem?_eq_none (by rw [List.length_append, List.length_singleton]; omega)] at h
    cases h

/-- Counting a miss changes the snapshot only. -/
theorem applyEffects_missAccess (server : ServerState) (m : Miss config)
    (effects : List ServerEffect) : ∃ snapshot, applyEffects server (missAccess m ++ effects)
      = applyEffects { server with snapshot := snapshot } effects := by
  rw [applyEffects, List.foldl_append, missAccess]
  split
  · exact ⟨_, rfl⟩
  · exact ⟨server.snapshot, rfl⟩

/-- It inserts nothing. -/
theorem filterMap_missAccess (m : Miss config) :
    (missAccess m).filterMap cacheInsertion = [] := by
  rw [missAccess]
  split
  · rfl
  · rfl

section Steps

variable {diskAsync : Bool} {db : String → String} {run : DiskRun config}

/-- A read under way belongs to a miss of the past. -/
theorem DiskInvariant.reading_of_le (h : DiskInvariant diskAsync db run) {id : ℕ}
    (hid : run.misses.length ≤ id) : run.reading id = 0 := by
  apply weight_eq_zero
  intro read hmem
  obtain ⟨m, hm, -⟩ := h.reads read hmem
  have hlt : read.request.id < run.misses.length := (List.getElem?_eq_some_iff.mp hm).1
  exact if_neg (by omega)

/-- So does a queued response. -/
theorem DiskInvariant.queued_of_le (h : DiskInvariant diskAsync db run) {id : ℕ}
    (hid : run.misses.length ≤ id) : run.queued id = 0 := by
  apply weight_eq_zero
  intro response hmem
  obtain ⟨m, hm, -⟩ := h.responses response hmem
  have hlt : response.request.id < run.misses.length := (List.getElem?_eq_some_iff.mp hm).1
  exact if_neg (by omega)

/-- Before the first miss. -/
theorem diskInvariant_initial : DiskInvariant diskAsync db (.initial config) where
  reads := List.forall_mem_nil _
  responses := List.forall_mem_nil _
  once := fun _ hid => absurd hid (Nat.not_lt_zero _)
  inserted := fun _ _ hm => by cases hm
  values := fun _ _ hm => by cases hm
  fresh := fun _ _ => ⟨rfl, rfl⟩
  sync := fun _ => ⟨rfl, rfl⟩
  unsent := fun _ _ _ => rfl

/-- What has been returned, with one packet more. -/
theorem filterMap_answerTo_concat (sent : List ServerPacket) (request : GetRequest)
    (value : String) (id : ℕ) :
    (sent ++ [ServerPacket.getResponse request value]).filterMap (answerTo id)
      = sent.filterMap (answerTo id) ++ if request.id = id then [value] else [] := by
  rw [List.filterMap_append]
  congr 1
  by_cases hid : request.id = id
  · have hanswer : answerTo id (.getResponse request value) = some value := if_pos hid
    rw [if_pos hid, List.filterMap_cons_some hanswer, List.filterMap_nil]
  · have hanswer : answerTo id (.getResponse request value) = none := if_neg hid
    rw [if_neg hid, List.filterMap_cons_none hanswer, List.filterMap_nil]

/-- An asynchronous miss is being read afterwards. -/
theorem DiskInvariant.fetchAsync (h : DiskInvariant true db run) (m : Miss config)
    (snapshot : UInt64 → SnapshotCounter → ℕ) :
    DiskInvariant true db
      { server := { run.server with
          snapshot := snapshot
          pendingDisk := run.server.pendingDisk ++ [⟨m.request run.misses.length, m.callback⟩] }
        misses := run.misses ++ [m]
        insertions := run.insertions } := by
  have hreading : ∀ id, weight (fun read : DiskRead => if read.request.id = id then 1 else 0)
      (run.server.pendingDisk ++ [⟨m.request run.misses.length, m.callback⟩])
      = run.reading id + if run.misses.length = id then 1 else 0 := by
    intro id
    rw [weight_append, weight_cons, weight_nil, add_zero]
    rfl
  have hold : ∀ {id : ℕ} {m' : Miss config}, run.misses[id]? = some m' →
      (run.misses ++ [m])[id]? = some m' := by
    intro id m' hm
    rw [List.getElem?_append_left (List.getElem?_eq_some_iff.mp hm).1, hm]
  constructor
  case reads =>
    intro read hmem
    rcases List.mem_append.mp hmem with hpast | hnew
    · obtain ⟨m', hm, hread⟩ := h.reads read hpast
      exact ⟨m', hold hm, hread⟩
    · rw [List.mem_singleton.mp hnew]
      exact ⟨m, List.getElem?_concat_length, rfl⟩
  case responses =>
    intro response hmem
    obtain ⟨m', hm, hresponse⟩ := h.responses response hmem
    exact ⟨m', hold hm, hresponse⟩
  case once =>
    intro id hid
    rw [List.length_append, List.length_singleton] at hid
    show weight _ _ + run.queued id + (run.returned id).length = 1
    rw [hreading]
    by_cases hnew : run.misses.length = id
    · -- the new miss is being read, and nothing else has been done for it
      have hqueued := h.queued_of_le hnew.le
      have hreads := h.reading_of_le hnew.le
      rw [if_pos hnew, (h.fresh id hnew.le).2, hqueued, hreads, List.length_nil]
    · rw [if_neg hnew, add_zero]
      exact h.once id (by omega)
  case inserted =>
    intro id m' hm
    show run.insertions id = if weight _ _ = 0 then _ else _
    rw [hreading]
    rcases getElem?_concat_cases hm with hpast | ⟨rfl, rfl⟩
    · have hlt := (List.getElem?_eq_some_iff.mp hpast).1
      rw [if_neg (show ¬ run.misses.length = id by omega), add_zero]
      exact h.inserted id m' hpast
    · -- it inserts when its callback runs
      rw [if_pos rfl, if_neg (Nat.succ_ne_zero _)]
      exact (h.fresh _ le_rfl).1
  case values =>
    intro id m' hm value hvalue
    rcases getElem?_concat_cases hm with hpast | ⟨rfl, rfl⟩
    · exact h.values id m' hpast value hvalue
    · have hnone : run.returned run.misses.length = [] := (h.fresh _ le_rfl).2
      have hmem : value ∈ run.returned run.misses.length := hvalue
      rw [hnone] at hmem
      exact absurd hmem List.not_mem_nil
  case fresh =>
    intro id hid
    rw [List.length_append] at hid
    exact h.fresh id (by omega)
  case sync =>
    intro hsync
    cases hsync
  case unsent => exact h.unsent

/-- A synchronous miss has been answered afterwards. -/
theorem DiskInvariant.fetchSync (h : DiskInvariant false db run) (m : Miss config)
    (snapshot : UInt64 → SnapshotCounter → ℕ) :
    DiskInvariant false db
      { server := { run.server with
          snapshot := snapshot
          sent := run.server.sent ++ [.getResponse (m.request run.misses.length) (db m.key)] }
        misses := run.misses ++ [m]
        insertions := Function.update run.insertions run.misses.length
          (run.insertions run.misses.length ++ m.insertions false (db m.key)) } := by
  rw [(h.fresh _ le_rfl).1, List.nil_append]
  obtain ⟨hdisk, hqueue⟩ := h.sync rfl
  have hreading : ∀ id, run.reading id = 0 := by
    intro id
    rw [DiskRun.reading, hdisk, weight_nil]
  have hqueued : ∀ id, run.queued id = 0 := by
    intro id
    rw [DiskRun.queued, hqueue, weight_nil]
  have hreturned : ∀ id, (run.server.sent ++ [ServerPacket.getResponse
      (m.request run.misses.length) (db m.key)]).filterMap (answerTo id)
      = run.returned id ++ if run.misses.length = id then [db m.key] else [] :=
    fun id => filterMap_answerTo_concat _ _ _ id
  constructor
  case reads =>
    intro read hmem
    rw [show run.server.pendingDisk = [] from hdisk] at hmem
    exact absurd hmem List.not_mem_nil
  case responses =>
    intro response hmem
    rw [show run.server.blockCacheRequestQueue = [] from hqueue] at hmem
    exact absurd hmem List.not_mem_nil
  case once =>
    intro id hid
    rw [List.length_append, List.length_singleton] at hid
    show run.reading id + run.queued id
      + ((run.server.sent ++ [_]).filterMap (answerTo id)).length = 1
    rw [hreading, hqueued, hreturned, List.length_append]
    by_cases hnew : run.misses.length = id
    · -- the response is the first for the new miss
      rw [(h.fresh id hnew.le).2, if_pos hnew]
      rfl
    · have honce := h.once id (by omega)
      rw [hreading, hqueued] at honce
      rw [if_neg hnew, List.length_nil]
      exact honce
  case inserted =>
    intro id m' hm
    show Function.update run.insertions run.misses.length _ id = if run.reading id = 0 then _ else _
    rw [if_pos (hreading id)]
    rcases getElem?_concat_cases hm with hpast | ⟨rfl, rfl⟩
    · have hlt := (List.getElem?_eq_some_iff.mp hpast).1
      rw [Function.update_of_ne (by omega), h.inserted id m' hpast, if_pos (hreading id)]
    · rw [Function.update_self]
  case values =>
    intro id m' hm value hvalue
    have hmem : value ∈ (run.server.sent ++ [ServerPacket.getResponse
        (m.request run.misses.length) (db m.key)]).filterMap (answerTo id) := hvalue
    rw [hreturned, List.mem_append] at hmem
    rcases getElem?_concat_cases hm with hpast | ⟨rfl, rfl⟩
    · have hlt := (List.getElem?_eq_some_iff.mp hpast).1
      rw [if_neg (by omega)] at hmem
      rcases hmem with hpastValue | hnone
      · exact h.values id m' hpast value hpastValue
      · exact absurd hnone List.not_mem_nil
    · rw [(h.fresh _ le_rfl).2, if_pos rfl] at hmem
      rcases hmem with hpastValue | hnew
      · exact absurd hpastValue List.not_mem_nil
      · exact List.mem_singleton.mp hnew
  case fresh =>
    intro id hid
    rw [List.length_append, List.length_singleton] at hid
    refine ⟨?_, ?_⟩
    · show Function.update run.insertions run.misses.length _ id = []
      rw [Function.update_of_ne (by omega)]
      exact (h.fresh id (by omega)).1
    · show (run.server.sent ++ [_]).filterMap (answerTo id) = []
      rw [hreturned, if_neg (by omega), List.append_nil]
      exact (h.fresh id (by omega)).2
  case sync => exact fun _ => ⟨hdisk, hqueue⟩
  case unsent => exact fun hasync => by cases hasync

/-- A callback inserts its pair and queues its response. -/
theorem DiskInvariant.callback (h : DiskInvariant true db run) {i id : ℕ} {m : Miss config}
    {rest : List DiskRead} (hm : run.misses[id]? = some m)
    (hqueue : dequeueAt run.server.pendingDisk i = some (⟨m.request id, m.callback⟩, rest)) :
    run.insertions id = [] ∧
    DiskInvariant true db
      { run with
        server := { run.server with
          pendingDisk := rest
          blockCacheRequestQueue := run.server.blockCacheRequestQueue
            ++ [⟨m.request id, .ok, db m.key⟩] }
        insertions := Function.update run.insertions id (m.insertions true (db m.key)) } := by
  have hlt := (List.getElem?_eq_some_iff.mp hm).1
  have hreading : ∀ j, run.reading j = (if id = j then 1 else 0)
      + weight (fun read : DiskRead => if read.request.id = j then 1 else 0) rest :=
    fun j => weight_of_dequeueAt _ hqueue
  have hqueued : ∀ j, weight (fun response : QueuedResponse => if response.request.id = j then 1
      else 0) (run.server.blockCacheRequestQueue ++ [⟨m.request id, .ok, db m.key⟩])
      = run.queued j + if id = j then 1 else 0 := by
    intro j
    rw [weight_append, weight_cons, weight_nil, add_zero]
    rfl
  -- the read taken is the only one of the miss
  have hone := hreading id
  rw [if_pos rfl] at hone
  have honce := h.once id hlt
  have hnothing : run.insertions id = [] := by rw [h.inserted id m hm, if_neg (by omega)]
  refine ⟨hnothing, ?_⟩
  constructor
  case reads =>
    intro read hmem
    exact h.reads read (mem_of_mem_dequeueAt hqueue hmem)
  case responses =>
    intro response hmem
    rcases List.mem_append.mp hmem with hpast | hnew
    · exact h.responses response hpast
    · rw [List.mem_singleton.mp hnew]
      exact ⟨m, hm, rfl⟩
  case once =>
    intro j hj
    show weight _ rest + weight _ (_ ++ _) + (run.returned j).length = 1
    have hj' := h.once j hj
    rw [hreading j] at hj'
    rw [hqueued]
    omega
  case inserted =>
    intro j m' hm'
    show Function.update run.insertions id _ j = if weight _ rest = 0 then _ else _
    by_cases hj : id = j
    · subst hj
      rw [hm, Option.some.injEq] at hm'
      rw [Function.update_self, if_pos (by omega), hm']
    · have hj' := hreading j
      rw [if_neg hj, Nat.zero_add] at hj'
      rw [Function.update_of_ne (Ne.symm hj), ← hj']
      exact h.inserted j m' hm'
  case values => exact h.values
  case fresh =>
    intro j hj
    have hfresh := h.fresh j hj
    have hne : j ≠ id := fun heq => absurd hlt (by rw [← heq]; exact Nat.not_lt.mpr hj)
    refine ⟨?_, hfresh.2⟩
    show Function.update run.insertions id _ j = []
    rw [Function.update_of_ne hne]
    exact hfresh.1
  case sync =>
    intro hsync
    cases hsync
  case unsent => exact h.unsent

/-- The loop returns the value of a queued response. -/
theorem DiskInvariant.respond (h : DiskInvariant diskAsync db run)
    (hasync : config.blockDbAsync = true) {i id : ℕ} {m : Miss config}
    {rest : List QueuedResponse} (hm : run.misses[id]? = some m)
    (hqueue : dequeueAt run.server.blockCacheRequestQueue i
      = some (⟨m.request id, .ok, db m.key⟩, rest)) :
    DiskInvariant diskAsync db
      { run with
        server := { run.server with
          blockCacheRequestQueue := rest
          sent := run.server.sent ++ [.getResponse (m.request id) (db m.key)] } } := by
  have hlt := (List.getElem?_eq_some_iff.mp hm).1
  have hqueued : ∀ j, run.queued j = (if id = j then 1 else 0) + weight
      (fun response : QueuedResponse => if response.request.id = j then 1 else 0) rest :=
    fun j => weight_of_dequeueAt _ hqueue
  have hreturned : ∀ j, (run.server.sent ++ [ServerPacket.getResponse (m.request id)
      (db m.key)]).filterMap (answerTo j)
      = run.returned j ++ if id = j then [db m.key] else [] :=
    fun j => filterMap_answerTo_concat _ _ _ j
  constructor
  case reads => exact h.reads
  case responses =>
    intro response hmem
    exact h.responses response (mem_of_mem_dequeueAt hqueue hmem)
  case once =>
    intro j hj
    have hj' := h.once j hj
    rw [hqueued j] at hj'
    show run.reading j + weight _ rest + (List.filterMap (answerTo j) (_ ++ _)).length = 1
    rw [hreturned, List.length_append]
    by_cases heq : id = j
    · rw [if_pos heq] at hj' ⊢
      rw [List.length_singleton]
      omega
    · rw [if_neg heq] at hj' ⊢
      rw [List.length_nil]
      omega
  case inserted => exact h.inserted
  case values =>
    intro j m' hm' value hvalue
    have hmem : value ∈ (run.server.sent ++ [ServerPacket.getResponse (m.request id)
      (db m.key)]).filterMap (answerTo j) := hvalue
    rw [hreturned, List.mem_append] at hmem
    rcases hmem with hpast | hnew
    · exact h.values j m' hm' value hpast
    · by_cases heq : id = j
      · subst heq
        rw [hm, Option.some.injEq] at hm'
        rw [if_pos rfl, List.mem_singleton] at hnew
        rw [hnew, hm']
      · rw [if_neg heq] at hnew
        exact absurd hnew List.not_mem_nil
  case fresh =>
    intro j hj
    have hfresh := h.fresh j hj
    have hne : id ≠ j := fun heq => absurd hlt (by rw [heq]; exact Nat.not_lt.mpr hj)
    refine ⟨hfresh.1, ?_⟩
    show List.filterMap (answerTo j) (_ ++ _) = []
    rw [hreturned, hfresh.2, if_neg hne]
    rfl
  case sync =>
    intro hsync
    rw [(h.sync hsync).2] at hqueue
    cases hqueue
  case unsent =>
    intro _ hnot
    rw [hasync] at hnot
    cases hnot

/-- Every step of a run keeps the invariant. -/
theorem DiskInvariant.step (h : DiskInvariant diskAsync db run) {label : DiskLabel config}
    {run' : DiskRun config} (hs : diskStep config diskAsync db run label = some run') :
    DiskInvariant diskAsync db run' := by
  cases label with
  | fetch m =>
    simp only [diskStep, Option.map_eq_some_iff] at hs
    obtain ⟨effects, hfetch, rfl⟩ := hs
    cases diskAsync with
    | true =>
      rw [fetchFromDisk_async, Option.some.injEq] at hfetch
      subst hfetch
      obtain ⟨snapshot, hsnapshot⟩ := applyEffects_missAccess run.server m
        [.getAsync ⟨m.request run.misses.length, m.callback⟩]
      rw [DiskRun.record, hsnapshot, List.filterMap_append, filterMap_missAccess,
        show ([ServerEffect.getAsync ⟨m.request run.misses.length, m.callback⟩].filterMap
          cacheInsertion) = [] from rfl, List.append_nil, List.append_nil, Function.update_eq_self]
      exact h.fetchAsync m snapshot
    | false =>
      obtain ⟨reads, hfetch', hreads, hinsertions⟩ :=
        fetchFromDisk_sync m run.misses.length (db m.key)
      rw [hfetch', Option.some.injEq] at hfetch
      subst hfetch
      obtain ⟨snapshot, hsnapshot⟩ := applyEffects_missAccess run.server m
        (reads ++ [.send (.getResponse (m.request run.misses.length) (db m.key))])
      have hsend : [ServerEffect.send (.getResponse (m.request run.misses.length)
        (db m.key))].filterMap cacheInsertion = [] := rfl
      rw [DiskRun.record, List.append_assoc, hsnapshot, List.filterMap_append, filterMap_missAccess,
        List.filterMap_append, hinsertions, hsend, List.append_nil, List.nil_append]
      -- the reads of the cache library leave the server as it is
      rcases hreads with rfl | rfl
      · exact h.fetchSync m snapshot
      · exact h.fetchSync m snapshot
  | diskReadCompleted i =>
    simp only [diskStep, Option.bind_eq_bind, Option.bind_eq_some_iff, Option.map_eq_some_iff] at hs
    obtain ⟨⟨read, rest⟩, hqueue, effects, hcallback, rfl⟩ := hs
    cases diskAsync with
    | false =>
      -- nothing is read asynchronously in this mode
      rw [(h.sync rfl).1] at hqueue
      cases hqueue
    | true =>
      obtain ⟨m, hm, hread⟩ := h.reads read (mem_of_dequeueAt hqueue)
      obtain ⟨puts, hcallback', hputs, hinsertions⟩ :=
        diskCallback_miss m read.request.id (db m.key)
      have hkey : db read.request.key = db m.key := by rw [hread]; rfl
      rw [hkey, hread, hcallback', Option.some.injEq] at hcallback
      subst hcallback
      rw [hread] at hqueue
      obtain ⟨hnone, hnext⟩ := h.callback hm hqueue
      have happend : [ServerEffect.appendBlockCacheRequest ⟨m.request read.request.id, .ok,
        db m.key⟩].filterMap cacheInsertion = [] := rfl
      rw [DiskRun.record, List.filterMap_append, hinsertions, happend, List.append_nil, hnone,
        List.nil_append]
      -- as do its puts
      rcases hputs with rfl | rfl
      · exact hnext
      · exact hnext
  | sendBlockCacheRequest i =>
    simp only [diskStep] at hs
    split at hs
    · cases hs
    · next hasync =>
      simp only [Option.bind_eq_bind, Option.bind_eq_some_iff, Option.map_eq_some_iff] at hs
      obtain ⟨⟨response, rest⟩, hqueue, effects, hsend, rfl⟩ := hs
      obtain ⟨m, hm, hresponse⟩ := h.responses response (mem_of_dequeueAt hqueue)
      rw [hresponse, sendQueued, if_pos rfl, Option.some.injEq] at hsend
      subst hsend
      rw [hresponse] at hqueue
      rw [DiskRun.record,
        show [ServerEffect.send (.getResponse (m.request response.request.id)
          (db m.key))].filterMap cacheInsertion = [] from rfl, List.append_nil,
        Function.update_eq_self]
      exact h.respond (by simpa using hasync) hm hqueue

/-- What a complete run has done for a miss. -/
theorem DiskInvariant.settled (h : DiskInvariant diskAsync db run) (hsettled : run.Settled)
    {id : ℕ} {m : Miss config} (hm : run.misses[id]? = some m) :
    run.insertions id = m.insertions diskAsync (db m.key) ∧
      run.returned id
        = if diskAsync = true ∧ config.blockDbAsync = false then [] else [db m.key] := by
  have hreading : run.reading id = 0 := by rw [DiskRun.reading, hsettled.1, weight_nil]
  refine ⟨by rw [h.inserted id m hm, if_pos hreading], ?_⟩
  split_ifs with hunsent
  · -- the queue is never looked at
    exact h.unsent hunsent.1 hunsent.2 id
  · have hqueue : run.server.blockCacheRequestQueue = [] := by
      cases hmode : diskAsync with
      | false => exact (h.sync hmode).2
      | true =>
        apply hsettled.2
        cases hblock : config.blockDbAsync with
        | true => rfl
        | false => exact absurd ⟨hmode, hblock⟩ hunsent
    have honce := h.once id (List.getElem?_eq_some_iff.mp hm).1
    rw [hreading, DiskRun.queued, hqueue, weight_nil, Nat.zero_add] at honce
    obtain ⟨value, hvalue⟩ := List.length_eq_one_iff.mp honce
    rw [hvalue, h.values id m hm value (by rw [hvalue]; exact List.mem_cons_self)]

end Steps

/-- What a miss inserts is the same in both modes unless only the asynchronous one inserts it. -/
theorem insertions_agree_iff (m : Miss config) (value : String) :
    m.insertions true value = m.insertions false value ↔ ¬ m.OnlyAsyncInserts := by
  rw [Miss.insertions, Miss.insertions, Miss.OnlyAsyncInserts]
  cases config.operationsPolluteCache with
  | true =>
    cases m.addToCache with
    | true => simp
    | false => simp
  | false =>
    cases m.addToCache with
    | true => simp
    | false => simp

/-- **When the disk modes agree.** For every configuration and database, and every sequence of
misses with its callbacks in any order: a complete asynchronous run and a complete synchronous run
of the same misses request the same insertions and return the same value for each of them if and
only if none of the misses is one that only the asynchronous mode inserts, and `block_db.async` is
on if there is a miss. -/
theorem disk_modes_agree_iff (config : ServerConfig) (db : String → String)
    {asyncRun syncRun : DiskRun config} (hasync : CompleteRun config true db asyncRun)
    (hsync : CompleteRun config false db syncRun) (hmisses : asyncRun.misses = syncRun.misses) :
    RunsAgree asyncRun syncRun
      ↔ ∀ m ∈ asyncRun.misses, config.blockDbAsync = true ∧ ¬ m.OnlyAsyncInserts := by
  have hasyncInv : DiskInvariant true db asyncRun :=
    hasync.1.invariant diskInvariant_initial fun _ _ _ _ hinv _ hs => hinv.step hs
  have hsyncInv : DiskInvariant false db syncRun :=
    hsync.1.invariant diskInvariant_initial fun _ _ _ _ hinv _ hs => hinv.step hs
  -- both runs have done for a miss what their mode does
  have hmiss : ∀ {id : ℕ} {m : Miss config}, asyncRun.misses[id]? = some m →
      ((asyncRun.insertions id = syncRun.insertions id ∧
        asyncRun.returned id = syncRun.returned id)
        ↔ config.blockDbAsync = true ∧ ¬ m.OnlyAsyncInserts) := by
    intro id m hm
    obtain ⟨hins, hret⟩ := hasyncInv.settled hasync.2 hm
    rw [hmisses] at hm
    obtain ⟨hins', hret'⟩ := hsyncInv.settled hsync.2 hm
    rw [hins, hins', hret, hret', insertions_agree_iff, and_comm]
    cases config.blockDbAsync with
    | true => simp
    | false => simp
  constructor
  · intro hagree m hmem
    obtain ⟨id, hid⟩ := List.mem_iff_getElem?.mp hmem
    exact (hmiss hid).mp (hagree id (List.getElem?_eq_some_iff.mp hid).1)
  · intro hall id hid
    have hm := List.getElem?_eq_getElem hid
    exact (hmiss hm).mpr (hall _ (List.mem_of_getElem? hm))

/-- A server of key `0`, whose operations pollute the cache or not. -/
def pollutingConfig (operationsPolluteCache : Bool) : ServerConfig :=
  { indexingConfig true with operationsPolluteCache := operationsPolluteCache }

/-- A miss of its own key. -/
def ownMiss (operationsPolluteCache : Bool) : Miss (pollutingConfig operationsPolluteCache) where
  remoteIndex := 0
  remotePort := 50100
  key := toString 0
  keyIndex := 0
  addToCache := true
  parsed := stoi_toString (n := 0) (by decide)
  counted := Option.some_ne_none _

/-- The asynchronous run of the miss. -/
def ownMissAsync (operationsPolluteCache : Bool) :
    List (DiskLabel (pollutingConfig operationsPolluteCache)) :=
  [.fetch (ownMiss operationsPolluteCache), .diskReadCompleted 0, .sendBlockCacheRequest 0]

/-- With pollution the modes agree on the miss. -/
theorem disk_modes_agree_iff_polluting :
    ∃ asyncRun syncRun, CompleteRun (pollutingConfig true) true (fun _ => "v") asyncRun ∧
      CompleteRun (pollutingConfig true) false (fun _ => "v") syncRun ∧
      asyncRun.misses = [ownMiss true] ∧ RunsAgree asyncRun syncRun := by
  have hasync : ∃ run, runLabels (diskStep (pollutingConfig true) true fun _ => "v") (.initial _)
      (ownMissAsync true) = some run ∧ run.Settled ∧ run.misses = [ownMiss true] :=
    ⟨_, rfl, ⟨rfl, fun _ => rfl⟩, rfl⟩
  have hsync : ∃ run, runLabels (diskStep (pollutingConfig true) false fun _ => "v") (.initial _)
      [.fetch (ownMiss true)] = some run ∧ run.Settled ∧ run.misses = [ownMiss true] :=
    ⟨_, rfl, ⟨rfl, fun _ => rfl⟩, rfl⟩
  obtain ⟨asyncRun, hasyncRun, hasyncSettled, hasyncMisses⟩ := hasync
  obtain ⟨syncRun, hsyncRun, hsyncSettled, hsyncMisses⟩ := hsync
  have hasyncComplete : CompleteRun (pollutingConfig true) true (fun _ => "v") asyncRun :=
    ⟨reachable_of_runLabels _ hasyncRun, hasyncSettled⟩
  have hsyncComplete : CompleteRun (pollutingConfig true) false (fun _ => "v") syncRun :=
    ⟨reachable_of_runLabels _ hsyncRun, hsyncSettled⟩
  refine ⟨asyncRun, syncRun, hasyncComplete, hsyncComplete, hasyncMisses, ?_⟩
  apply (disk_modes_agree_iff (pollutingConfig true) (fun _ => "v") hasyncComplete hsyncComplete
    (by rw [hasyncMisses, hsyncMisses])).mpr
  intro m _
  exact ⟨rfl, fun hinserts => by cases hinserts.1⟩

/-- Without pollution only the asynchronous mode inserts the key of the miss. -/
theorem disk_modes_disagree :
    ∃ asyncRun syncRun, CompleteRun (pollutingConfig false) true (fun _ => "v") asyncRun ∧
      CompleteRun (pollutingConfig false) false (fun _ => "v") syncRun ∧
      asyncRun.misses = [ownMiss false] ∧ syncRun.misses = [ownMiss false] ∧
      asyncRun.insertions 0 = [(toString 0, "v")] ∧ syncRun.insertions 0 = [] ∧
      ¬ RunsAgree asyncRun syncRun := by
  have hasync : ∃ run, runLabels (diskStep (pollutingConfig false) true fun _ => "v") (.initial _)
      (ownMissAsync false) = some run ∧ run.Settled ∧ run.misses = [ownMiss false] ∧
      run.insertions 0 = [(toString 0, "v")] := ⟨_, rfl, ⟨rfl, fun _ => rfl⟩, rfl, rfl⟩
  have hsync : ∃ run, runLabels (diskStep (pollutingConfig false) false fun _ => "v") (.initial _)
      [.fetch (ownMiss false)] = some run ∧ run.Settled ∧ run.misses = [ownMiss false] ∧
      run.insertions 0 = [] := ⟨_, rfl, ⟨rfl, fun _ => rfl⟩, rfl, rfl⟩
  obtain ⟨asyncRun, hasyncRun, hasyncSettled, hasyncMisses, hasyncInserts⟩ := hasync
  obtain ⟨syncRun, hsyncRun, hsyncSettled, hsyncMisses, hsyncInserts⟩ := hsync
  refine ⟨asyncRun, syncRun, ⟨reachable_of_runLabels _ hasyncRun, hasyncSettled⟩,
    ⟨reachable_of_runLabels _ hsyncRun, hsyncSettled⟩, hasyncMisses, hsyncMisses, hasyncInserts,
    hsyncInserts, ?_⟩
  intro hagree
  have hinserts := (hagree 0 (by rw [hasyncMisses]; decide)).1
  rw [hasyncInserts, hsyncInserts] at hinserts
  cases hinserts

end TwigKV.Server
