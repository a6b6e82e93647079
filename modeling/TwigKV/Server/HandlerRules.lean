import TwigKV.Server.Machine

/-! # Rules for the effects of the handlers

A handler does a few kinds of things. Each rule derives a property `Q` of all its effects from `Q`
of those kinds, with what the handler knows where it does them: the configuration, the answers it
got, the keys it has compared. `DiskRule`, `RdmaRule` and `MatchRule` collect the kinds of one part
of a handler. -/

namespace TwigKV.Server

/-! ## Properties of all elements -/

section Elements

variable {α : Type*} {P : α → Prop}

/-- What holds of a queue and of a new element holds of the queue with it. -/
theorem forall_mem_concat {queue : List α} {x : α} (hqueue : ∀ y ∈ queue, P y) (hx : P x) :
    ∀ y ∈ queue ++ [x], P y :=
  List.forall_mem_append.mpr ⟨hqueue, List.forall_mem_singleton.mpr hx⟩

/-- What is left of a queue. -/
theorem forall_mem_dequeueAt {queue rest : List α} {i : ℕ} {x : α}
    (h : dequeueAt queue i = some (x, rest)) (hqueue : ∀ y ∈ queue, P y) :
    P x ∧ ∀ y ∈ rest, P y :=
  ⟨hqueue x (mem_of_dequeueAt h), fun y hy => hqueue y (mem_of_mem_dequeueAt h hy)⟩

end Elements

/-! ## The kinds of effects -/

section Rules

variable (config : ServerConfig) (request : GetRequest) (keyIndex : UInt64)
  (Q : ServerEffect → Prop)

/-- What `fetch_from_disk` does besides counting. -/
structure DiskRule : Prop where
  /-- With `DISK_ASYNC` it posts a read. -/
  getAsync : config.diskAsync = true → ∀ callback, Q (.getAsync ⟨request, callback⟩)
  /-- Without, it reads through the cache. -/
  blockCacheGet : config.diskAsync = false → ∀ value, Q (.blockCacheGet request.key value)
  /-- And responds. -/
  getResponse : config.diskAsync = false → ∀ value, Q (.send (.getResponse request value))

/-- What the RDMA part of the get handler does. -/
structure RdmaRule : Prop where
  /-- With an index it reads a slot. -/
  readSlot : config.useCacheIndexing = true →
    ∀ i offset, Q (.readSlot ⟨request, keyIndex, i, offset⟩)
  /-- Without, a block. -/
  readBlock : config.useCacheIndexing = false → Q (.readBlock ⟨request⟩)
  /-- Without `RDMA_ASYNC` it sends the read buffer. -/
  readBuffer : config.rdmaAsync = false → ∀ value, Q (.send (.getResponse request value))

/-- What the read callback does where the slot holds the expected key. -/
structure MatchRule (read : SlotRead) (kv : RDMACacheIndexKeyValue) (answers : CallbackAnswers) :
    Prop where
  /-- The `nchance` policy caches the pair. -/
  putNchance : Q (.putNchance (toString kv.keyIndex.toNat) (valueView config kv.data))
  /-- And forwards what this evicts. -/
  appendSingletonPutRequest : ∀ data, answers.evicted = some data →
    Q (.appendSingletonPutRequest
      ⟨remoteIndexToForward config, config.port + config.threadIndex, .ok, data⟩)
  /-- The access-rate policies cache it. -/
  putAccessRateMatch :
    Q (.putAccessRateMatch (toString kv.keyIndex.toNat) (valueView config kv.data))
  /-- And count that. -/
  accessRate : Q (.snapshot .accessRate kv.keyIndex)
  /-- The response is queued. -/
  appendRdmaGetResponse :
    Q (.appendRdmaGetResponse ⟨read.request, .ok, valueView config kv.data⟩)

end Rules

/-! ## The rules -/

section Handlers

variable {config : ServerConfig} {request : GetRequest} {keyIndex : UInt64}
  {Q : ServerEffect → Prop} {effects : List ServerEffect}

/-- `snapshot->update_*`. -/
theorem forall_mem_updateSnapshot {counter : SnapshotCounter}
    (h : updateSnapshot config counter keyIndex = some effects)
    (hQ : Q (.snapshot counter keyIndex)) :
    ∀ effect ∈ effects, Q effect := by
  unfold updateSnapshot at h
  split at h
  · cases h
    exact List.forall_mem_nil _
  · split at h
    · cases h
    · cases h
      exact List.forall_mem_singleton.mpr hQ

/-- The reads of `fetch_from_disk`. -/
theorem forall_mem_readFromDisk {addToCache : Bool} {disk : DiskAnswers} {value : String}
    (h : readFromDisk config request addToCache disk = some (effects, value))
    (hdisk : DiskRule config request Q) : ∀ effect ∈ effects, Q effect := by
  unfold readFromDisk at h
  cases hasync : config.diskAsync with
  | true =>
    rw [hasync] at h
    split at h
    · cases h
      exact List.forall_mem_singleton.mpr (hdisk.getAsync hasync _)
    · cases h
      exact List.forall_mem_singleton.mpr (hdisk.getAsync hasync _)
  | false =>
    rw [hasync] at h
    split at h
    · cases h
      exact List.forall_mem_singleton.mpr (hdisk.blockCacheGet hasync _)
    · -- `get` of the database is not an effect
      rw [if_neg Bool.false_ne_true, Option.map_eq_some_iff] at h
      obtain ⟨_, -, heq⟩ := h
      cases heq
      exact List.forall_mem_nil _

/-- `fetch_from_disk`. -/
theorem forall_mem_fetchFromDisk {addToCache : Bool} {disk : DiskAnswers}
    (h : fetchFromDisk config request keyIndex addToCache disk = some effects)
    (hcount : Q (.snapshot .diskAccess keyIndex)) (hdisk : DiskRule config request Q) :
    ∀ effect ∈ effects, Q effect := by
  simp only [fetchFromDisk, Option.bind_eq_bind, Option.bind_eq_some_iff, Option.pure_def,
    Option.some.injEq] at h
  obtain ⟨access, haccess, ⟨reads, value⟩, hreads, rfl⟩ := h
  refine List.forall_mem_append.mpr ⟨List.forall_mem_append.mpr
    ⟨forall_mem_updateSnapshot haccess hcount, forall_mem_readFromDisk hreads hdisk⟩, ?_⟩
  cases hasync : config.diskAsync with
  | true => exact List.forall_mem_nil _
  | false => exact List.forall_mem_singleton.mpr (hdisk.getResponse hasync value)

/-- The callback of `get_async`. -/
theorem forall_mem_diskCallback {read : DiskRead} {value : String}
    (h : diskCallback config read value = some effects)
    (hput : Q (.cachePut read.request.key value))
    (happend : Q (.appendBlockCacheRequest ⟨read.request, .ok, value⟩)) :
    ∀ effect ∈ effects, Q effect := by
  rw [diskCallback, Option.map_eq_some_iff] at h
  obtain ⟨puts, hputs, rfl⟩ := h
  refine forall_mem_concat ?_ happend
  unfold diskCachePut at hputs
  split at hputs
  · cases hputs
    exact List.forall_mem_singleton.mpr hput
  · cases hputs
    exact List.forall_mem_nil _
  · rw [Option.map_eq_some_iff] at hputs
    obtain ⟨k, -, rfl⟩ := hputs
    split
    · exact List.forall_mem_singleton.mpr hput
    · exact List.forall_mem_nil _

/-- The remote read of the get handler. -/
theorem forall_mem_remoteRead {answers : GetAnswers} {foundInRdma : Bool}
    (h : remoteRead config request keyIndex answers = some (effects, foundInRdma))
    (hrdma : RdmaRule config request keyIndex Q) : ∀ effect ∈ effects, Q effect := by
  unfold remoteRead at h
  split at h
  · next hindexing =>
    rw [Option.some.injEq, readCallback] at h
    split at h
    · cases h
      exact List.forall_mem_singleton.mpr (hrdma.readSlot hindexing _ _)
    · cases h
      exact List.forall_mem_nil _
  · next hindexing =>
    rw [Option.map_eq_some_iff] at h
    obtain ⟨reads, hreads, heq⟩ := h
    cases heq
    rw [readCorrectNode, Option.bind_eq_some_iff] at hreads
    obtain ⟨_, -, hposted⟩ := hreads
    split at hposted
    · split at hposted
      · cases hposted
        exact List.forall_mem_singleton.mpr
          (hrdma.readBlock (Bool.eq_false_of_not_eq_true hindexing))
      · cases hposted
    · cases hposted
      exact List.forall_mem_nil _

/-- The RDMA part of the get handler. -/
theorem forall_mem_getFromRdma {answers : GetAnswers} {foundInRdma : Bool}
    (h : getFromRdma config request keyIndex answers = some (effects, foundInRdma))
    (hrdma : RdmaRule config request keyIndex Q) : ∀ effect ∈ effects, Q effect := by
  unfold getFromRdma at h
  split at h
  · cases h
    exact List.forall_mem_nil _
  · split at h
    · cases h
    · rw [Option.map_eq_some_iff] at h
      obtain ⟨⟨reads, found⟩, hreads, heq⟩ := h
      cases heq
      refine List.forall_mem_append.mpr ⟨forall_mem_remoteRead hreads hrdma, ?_⟩
      cases hasync : config.rdmaAsync with
      | true => exact List.forall_mem_nil _
      | false => exact List.forall_mem_singleton.mpr (hrdma.readBuffer hasync _)

/-- The get handler. -/
theorem forall_mem_getHandler {answers : GetAnswers}
    (h : getHandler config request answers = some effects)
    (hcount : ∀ counter key, Q (.snapshot counter key))
    (hcached : answers.existsInCache = true → Q (.send (.getResponse request answers.cachedValue)))
    (hrdma : ∀ key, stoi request.key = some key → RdmaRule config request (UInt64.ofInt key) Q)
    (hdisk : DiskRule config request Q) : ∀ effect ∈ effects, Q effect := by
  simp only [getHandler, Option.bind_eq_bind, Option.bind_eq_some_iff, Option.pure_def,
    Option.some.injEq] at h
  obtain ⟨key, hkey, outcome, houtcome, total, htotal, rfl⟩ := h
  refine List.forall_mem_append.mpr ⟨?_, forall_mem_updateSnapshot htotal (hcount _ _)⟩
  cases hexists : answers.existsInCache with
  | true =>
    rw [hexists, cond_true, getHit, Option.map_eq_some_iff] at houtcome
    obtain ⟨hit, hhit, rfl⟩ := houtcome
    exact forall_mem_concat (forall_mem_updateSnapshot hhit (hcount _ _)) (hcached hexists)
  | false =>
    rw [hexists, cond_false] at houtcome
    simp only [getMiss, Option.bind_eq_bind, Option.bind_eq_some_iff, Option.pure_def,
      Option.some.injEq] at houtcome
    obtain ⟨miss, hmiss, ⟨rdma, found⟩, hreads, fetch, hfetch, rfl⟩ := houtcome
    refine List.forall_mem_append.mpr ⟨List.forall_mem_append.mpr
      ⟨forall_mem_updateSnapshot hmiss (hcount _ _),
        forall_mem_getFromRdma hreads (hrdma key hkey)⟩, ?_⟩
    -- `fetch_from_disk` is called only where nothing was found remotely
    cases found with
    | true =>
      cases hfetch
      exact List.forall_mem_nil _
    | false =>
      simp only [cond_false, getFromLocalDisk, Option.bind_eq_bind, Option.bind_eq_some_iff,
        Option.pure_def, Option.some.injEq] at hfetch
      obtain ⟨localAccess, hlocal, fetch', hfetch', rfl⟩ := hfetch
      exact List.forall_mem_append.mpr ⟨forall_mem_updateSnapshot hlocal (hcount _ _),
        forall_mem_fetchFromDisk hfetch' (hcount _ _) hdisk⟩

/-- The read callback where the slot holds the expected key. -/
theorem forall_mem_slotMatch {read : SlotRead} {kv : RDMACacheIndexKeyValue}
    {answers : CallbackAnswers} (h : slotMatch config read kv answers = some effects)
    (hmatch : MatchRule config Q read kv answers) : ∀ effect ∈ effects, Q effect := by
  rw [slotMatch, Option.map_eq_some_iff] at h
  obtain ⟨accessRate, haccessRate, rfl⟩ := h
  refine forall_mem_concat (List.forall_mem_append.mpr ⟨?_, ?_⟩) hmatch.appendRdmaGetResponse
  · unfold nchanceEffects
    split
    · refine List.forall_mem_cons.mpr ⟨hmatch.putNchance, ?_⟩
      cases hdata : answers.evicted with
      | none => exact List.forall_mem_nil _
      | some data =>
        exact List.forall_mem_singleton.mpr (hmatch.appendSingletonPutRequest data hdata)
    · exact List.forall_mem_nil _
  · unfold accessRateEffects at haccessRate
    split at haccessRate
    · rw [Option.map_eq_some_iff] at haccessRate
      obtain ⟨count, hcount, rfl⟩ := haccessRate
      refine List.forall_mem_cons.mpr ⟨hmatch.putAccessRateMatch, ?_⟩
      split at hcount
      · exact forall_mem_updateSnapshot hcount hmatch.accessRate
      · cases hcount
        exact List.forall_mem_nil _
    · cases haccessRate
      exact List.forall_mem_nil _

/-- The callback of an indexed read. -/
theorem forall_mem_slotCallback {read : SlotRead} {kv : RDMACacheIndexKeyValue}
    {answers : CallbackAnswers} (h : slotCallback config read kv answers = some effects)
    (hmatch : kv.keyIndex = read.expectedKey → MatchRule config Q read kv answers)
    (hcount : ∀ counter key, Q (.snapshot counter key))
    (hupdate : Q (.updateLocalKey read.expectedKey kv.keyIndex (valueView config kv.data)))
    (hdisk : DiskRule config read.request Q) : ∀ effect ∈ effects, Q effect := by
  unfold slotCallback at h
  split at h
  · next hkey => exact forall_mem_slotMatch h (hmatch hkey)
  · simp only [slotMismatch, Option.bind_eq_bind, Option.bind_eq_some_iff, Option.pure_def,
      Option.some.injEq] at h
    obtain ⟨remoteAccess, hremote, fetch, hfetch, rfl⟩ := h
    refine List.forall_mem_append.mpr ⟨forall_mem_updateSnapshot hremote (hcount _ _), ?_⟩
    exact List.forall_mem_cons.mpr ⟨hupdate, forall_mem_fetchFromDisk hfetch (hcount _ _) hdisk⟩

/-- A queued response that is sent. -/
theorem forall_mem_sendQueued {response : QueuedResponse} (h : sendQueued response = some effects)
    (hresponse : Q (.send (.getResponse response.request response.value))) :
    ∀ effect ∈ effects, Q effect := by
  unfold sendQueued at h
  split at h
  · cases h
    exact List.forall_mem_singleton.mpr hresponse
  · cases h

end Handlers

end TwigKV.Server
