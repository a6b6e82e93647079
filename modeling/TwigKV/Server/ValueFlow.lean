import TwigKV.Foundations.Word64
import TwigKV.Server.HandlerRules

/-! # Where a server's values come from

In cache-index mode with asynchronous RDMA and disk reads, a handler passes on only pairs that its
environment gave it: `Stored key value` stands for the pairs the environment may give, and
`EffectOk` says that an effect carries such a pair. One lemma for each handler shows that its
effects do, as long as the environment's answers do; the only place that compares keys is the
callback of an indexed read (`effectOk_slotCallback`). `ServerOk` is the same for what a server has
under way. -/

namespace TwigKV.Server

/-- Cache-index mode with asynchronous RDMA and disk reads. -/
structure AsyncIndexing (config : ServerConfig) : Prop where
  /-- One-sided RDMA is on. -/
  oneSidedRdmaEnabled : config.oneSidedRdmaEnabled = true
  /-- So is the index. -/
  useCacheIndexing : config.useCacheIndexing = true
  /-- RDMA reads are asynchronous. -/
  rdmaAsync : config.rdmaAsync = true
  /-- Disk reads are asynchronous. -/
  diskAsync : config.diskAsync = true

section ValueFlow

variable (config : ServerConfig) (keyInvalid : UInt64) (Stored : String → String → Prop)

/-- A slot's content, as far as its `VALUE_SIZE` first bytes are read: invalid, or a key with a
value stored under it. -/
def SlotOk (kv : RDMACacheIndexKeyValue) : Prop :=
  kv.keyIndex = keyInvalid ∨ Stored (toString kv.keyIndex.toNat) (valueView config kv.data)

/-- A slot read expects the key of its request, which is not the invalid marker. -/
structure ReadOk (read : SlotRead) : Prop where
  /-- The expected key. -/
  expectedKey : toString read.expectedKey.toNat = read.request.key
  /-- It is a key. -/
  valid : read.expectedKey ≠ keyInvalid

/-- A packet carries a stored pair. -/
def PacketOk : ServerPacket → Prop
  | .getResponse request value => Stored request.key value
  | .putResponse _ => True
  | .singletonPutRequest _ _ evicted => Stored evicted.key evicted.value

/-- An effect carries a stored pair. -/
def EffectOk : ServerEffect → Prop
  | .send packet => PacketOk Stored packet
  | .blockCachePut key value | .blockCacheGet key value | .cachePut key value
  | .putNchance key value | .putAccessRateMatch key value | .putSingleton key value _ _ =>
      Stored key value
  | .readSlot read => ReadOk keyInvalid read
  | .readBlock _ => False
  | .appendRdmaGetResponse response | .appendBlockCacheRequest response =>
      Stored response.request.key response.value
  | .appendSingletonPutRequest put => Stored put.evicted.key put.evicted.value
  | .snapshot _ _ | .deleteKey _ | .updateLocalKey _ _ _ | .getAsync _ => True

/-- Whatever a server has under way or has sent carries stored pairs. -/
structure ServerOk (st : ServerState) : Prop where
  /-- Slot reads. -/
  pendingReads : ∀ read ∈ st.pendingReads, ReadOk keyInvalid read
  /-- There are no block reads. -/
  pendingOps : st.pendingOps = []
  /-- Responses of RDMA reads. -/
  rdmaGetResponseQueue : ∀ response ∈ st.rdmaGetResponseQueue,
    Stored response.request.key response.value
  /-- Responses of database reads. -/
  blockCacheRequestQueue : ∀ response ∈ st.blockCacheRequestQueue,
    Stored response.request.key response.value
  /-- Singleton put requests. -/
  singletonPutRequestQueue : ∀ put ∈ st.singletonPutRequestQueue,
    Stored put.evicted.key put.evicted.value
  /-- Packets sent. -/
  sent : ∀ packet ∈ st.sent, PacketOk Stored packet

/-- The environment's answers to a step give stored pairs, and a get is for a key. -/
def AnswersOk (st : ServerState) : ServerLabel → Prop
  | .receiveGet _ _ key answers =>
      (∃ k : ℕ, cStr key = toString k ∧ k < keyInvalid.toNat) ∧
        (answers.existsInCache = true → Stored (cStr key) answers.cachedValue)
  | .receivePut _ key value | .receiveSingletonPut key value _ _ => Stored (cStr key) (cStr value)
  | .slotReadCompleted i kv answers =>
      ∀ read rest, dequeueAt st.pendingReads i = some (read, rest) →
        SlotOk config keyInvalid Stored kv ∧ ∀ data, answers.evicted = some data →
          kv.keyIndex ≠ keyInvalid → Stored data.key data.value
  | .diskReadCompleted i value => ∀ read rest, dequeueAt st.pendingDisk i = some (read, rest) →
      Stored read.request.key value
  | .receiveDelete _ | .blockReadCompleted _ _ | .sendRdmaGetResponse _
  | .sendBlockCacheRequest _ | .sendSingletonPutRequest _ => True

end ValueFlow

section Lemmas

variable {config : ServerConfig} {keyInvalid : UInt64} {Stored Stored' : String → String → Prop}

/-! ## More stored pairs -/

/-- Packets stay right when more pairs are stored. -/
theorem PacketOk.mono (hsub : ∀ key value, Stored key value → Stored' key value)
    {packet : ServerPacket} (h : PacketOk Stored packet) : PacketOk Stored' packet := by
  cases packet with
  | getResponse request value => exact hsub _ _ h
  | putResponse => trivial
  | singletonPutRequest index port evicted => exact hsub _ _ h

/-- A server stays right when more pairs are stored. -/
theorem ServerOk.mono (hsub : ∀ key value, Stored key value → Stored' key value)
    {st : ServerState} (h : ServerOk keyInvalid Stored st) : ServerOk keyInvalid Stored' st where
  pendingReads := h.pendingReads
  pendingOps := h.pendingOps
  rdmaGetResponseQueue := fun response hmem => hsub _ _ (h.rdmaGetResponseQueue response hmem)
  blockCacheRequestQueue := fun response hmem => hsub _ _ (h.blockCacheRequestQueue response hmem)
  singletonPutRequestQueue := fun put hmem => hsub _ _ (h.singletonPutRequestQueue put hmem)
  sent := fun packet hmem => (h.sent packet hmem).mono hsub

/-- A server that has received nothing. -/
theorem serverOk_initial : ServerOk keyInvalid Stored .initial where
  pendingReads := List.forall_mem_nil _
  pendingOps := rfl
  rdmaGetResponseQueue := List.forall_mem_nil _
  blockCacheRequestQueue := List.forall_mem_nil _
  singletonPutRequestQueue := List.forall_mem_nil _
  sent := List.forall_mem_nil _

/-! ## Effects on a server -/

/-- An effect with a stored pair keeps the server right. -/
theorem ServerOk.applyEffect {st : ServerState} (h : ServerOk keyInvalid Stored st)
    {effect : ServerEffect} (heffect : EffectOk keyInvalid Stored effect) :
    ServerOk keyInvalid Stored (applyEffect st effect) := by
  cases effect with
  | send packet => exact { h with sent := forall_mem_concat h.sent heffect }
  | readSlot read => exact { h with pendingReads := forall_mem_concat h.pendingReads heffect }
  | readBlock read => exact heffect.elim
  | appendRdmaGetResponse response =>
    exact { h with rdmaGetResponseQueue := forall_mem_concat h.rdmaGetResponseQueue heffect }
  | appendBlockCacheRequest response =>
    exact { h with blockCacheRequestQueue := forall_mem_concat h.blockCacheRequestQueue heffect }
  | appendSingletonPutRequest put =>
    exact { h with
      singletonPutRequestQueue := forall_mem_concat h.singletonPutRequestQueue heffect }
  | snapshot | getAsync => exact { h with }
  | blockCachePut | blockCacheGet | cachePut | putNchance | putAccessRateMatch | putSingleton
  | deleteKey | updateLocalKey => exact h

/-- So does a list of them. -/
theorem ServerOk.applyEffects {st : ServerState} (h : ServerOk keyInvalid Stored st)
    {effects : List ServerEffect}
    (heffects : ∀ effect ∈ effects, EffectOk keyInvalid Stored effect) :
    ServerOk keyInvalid Stored (applyEffects st effects) := by
  induction effects generalizing st with
  | nil => exact h
  | cons effect effects ih =>
    have hfirst := h.applyEffect (heffects effect List.mem_cons_self)
    exact ih hfirst fun e he => heffects e (List.mem_cons_of_mem _ he)

/-! ## Effects of the handlers -/

variable {request : GetRequest} {keyIndex : UInt64} {effects : List ServerEffect}

/-- With asynchronous disk reads `fetch_from_disk` only posts a read. -/
theorem diskRule_effectOk (hasync : config.diskAsync = true) :
    DiskRule config request (EffectOk keyInvalid Stored) where
  getAsync := fun _ _ => trivial
  blockCacheGet := fun hsync => absurd (hsync.symm.trans hasync) Bool.false_ne_true
  getResponse := fun hsync => absurd (hsync.symm.trans hasync) Bool.false_ne_true

/-- The callback of `get_async` passes on the value of the database. -/
theorem effectOk_diskCallback {read : DiskRead} {value : String}
    (hvalue : Stored read.request.key value)
    (h : diskCallback config read value = some effects) :
    ∀ effect ∈ effects, EffectOk keyInvalid Stored effect :=
  forall_mem_diskCallback h hvalue hvalue

/-- The get handler passes on the value of the cache or posts a read. -/
theorem effectOk_getHandler (hmode : AsyncIndexing config) {answers : GetAnswers} {key : ℤ}
    (h : getHandler config request answers = some effects) (hkey : stoi request.key = some key)
    (hread : toString (UInt64.ofInt key).toNat = request.key)
    (hvalid : UInt64.ofInt key ≠ keyInvalid)
    (hcached : answers.existsInCache = true → Stored request.key answers.cachedValue) :
    ∀ effect ∈ effects, EffectOk keyInvalid Stored effect := by
  refine forall_mem_getHandler h (fun _ _ => trivial) hcached (fun key' hkey' => ?_)
    (diskRule_effectOk hmode.diskAsync)
  -- the slot read expects the key of the request
  have hsame : key = key' := Option.some.inj (hkey.symm.trans hkey')
  rw [← hsame]
  constructor
  · exact fun _ _ _ => ⟨hread, hvalid⟩
  · exact fun hblocks => absurd (hblocks.symm.trans hmode.useCacheIndexing) Bool.false_ne_true
  · exact fun hsync => absurd (hsync.symm.trans hmode.rdmaAsync) Bool.false_ne_true

/-- The callback of an indexed read passes on the slot's value only if the slot holds the key of the
request. -/
theorem effectOk_slotCallback (hmode : AsyncIndexing config) {read : SlotRead}
    {kv : RDMACacheIndexKeyValue} {answers : CallbackAnswers} (hread : ReadOk keyInvalid read)
    (hslot : SlotOk config keyInvalid Stored kv)
    (hevicted : ∀ data, answers.evicted = some data →
      kv.keyIndex = read.expectedKey → Stored data.key data.value)
    (h : slotCallback config read kv answers = some effects) :
    ∀ effect ∈ effects, EffectOk keyInvalid Stored effect := by
  refine forall_mem_slotCallback h (fun hmatch => ?_) (fun _ _ => trivial) trivial
    (diskRule_effectOk hmode.diskAsync)
  -- the slot is not invalid, since its key is the one expected
  have hpair : Stored (toString kv.keyIndex.toNat) (valueView config kv.data) := by
    refine hslot.resolve_left ?_
    rw [hmatch]
    exact hread.valid
  have hresponse : Stored read.request.key (valueView config kv.data) := by
    rw [← hread.expectedKey, ← hmatch]
    exact hpair
  exact ⟨hpair, fun data hdata => hevicted data hdata hmatch, hpair, trivial, hresponse⟩

/-- A queued response that is sent carries the pair it was queued with. -/
theorem effectOk_sendQueued {response : QueuedResponse}
    (hresponse : Stored response.request.key response.value)
    (h : sendQueued response = some effects) :
    ∀ effect ∈ effects, EffectOk keyInvalid Stored effect :=
  forall_mem_sendQueued h hresponse

/-- Every step of a server takes stored pairs and passes on stored pairs. -/
theorem serverOk_serverMove (hmode : AsyncIndexing config) {st st₁ : ServerState}
    {label : ServerLabel} (hok : ServerOk keyInvalid Stored st)
    (hanswers : AnswersOk config keyInvalid Stored st label)
    (h : serverMove config st label = some (st₁, effects)) :
    ServerOk keyInvalid Stored st₁ ∧ ∀ effect ∈ effects, EffectOk keyInvalid Stored effect := by
  cases serverMove_cases h with
  | @receiveGet remoteIndex remotePort key answers _ hget =>
    refine ⟨{ hok with }, ?_⟩
    obtain ⟨⟨k, hk, hlt⟩, hcached⟩ := hanswers
    -- the handler has read the number back from the key
    obtain ⟨value, hvalue⟩ : ∃ value, stoi (cStr key) = some value := by
      cases hstoi : stoi (cStr key) with
      | some value => exact ⟨value, rfl⟩
      | none =>
        simp only [getHandler, hstoi, Option.bind_eq_bind, Option.bind_none] at hget
        cases hget
    have hvalue' := hvalue
    rw [hk] at hvalue'
    obtain ⟨rfl, hbound⟩ := eq_of_stoi_toString hvalue'
    have hnat : (UInt64.ofInt (k : ℤ)).toNat = k := toNat_ofInt_natCast (by omega)
    refine effectOk_getHandler hmode hget hvalue ?_ ?_ hcached
    · rw [hnat]
      exact hk.symm
    · intro heq
      rw [← heq, hnat] at hlt
      exact absurd hlt (Nat.lt_irrefl k)
  | receivePut =>
    exact ⟨hok, List.forall_mem_cons.mpr ⟨hanswers, List.forall_mem_singleton.mpr trivial⟩⟩
  | receiveSingletonPut => exact ⟨hok, List.forall_mem_singleton.mpr hanswers⟩
  | receiveDelete => exact ⟨hok, List.forall_mem_singleton.mpr trivial⟩
  | @slotReadCompleted _ _ _ read rest _ hqueue hcallback =>
    obtain ⟨hread, hrest⟩ := forall_mem_dequeueAt hqueue hok.pendingReads
    refine ⟨{ hok with pendingReads := hrest }, ?_⟩
    obtain ⟨hslot, hevicted⟩ := hanswers read rest hqueue
    refine effectOk_slotCallback hmode hread hslot ?_ hcallback
    intro data hdata hmatch
    exact hevicted data hdata (by rw [hmatch]; exact hread.valid)
  | blockReadCompleted hqueue =>
    -- nothing posts a read of a block in this mode
    rw [hok.pendingOps] at hqueue
    cases hqueue
  | @diskReadCompleted _ _ read rest _ hqueue hcallback =>
    exact ⟨{ hok with }, effectOk_diskCallback (hanswers read rest hqueue) hcallback⟩
  | sendRdmaGetResponse hqueue hsend =>
    obtain ⟨hresponse, hrest⟩ := forall_mem_dequeueAt hqueue hok.rdmaGetResponseQueue
    exact ⟨{ hok with rdmaGetResponseQueue := hrest }, effectOk_sendQueued hresponse hsend⟩
  | sendBlockCacheRequest hqueue hsend =>
    obtain ⟨hresponse, hrest⟩ := forall_mem_dequeueAt hqueue hok.blockCacheRequestQueue
    exact ⟨{ hok with blockCacheRequestQueue := hrest }, effectOk_sendQueued hresponse hsend⟩
  | sendSingletonPutRequest hqueue =>
    obtain ⟨hput, hrest⟩ := forall_mem_dequeueAt hqueue hok.singletonPutRequestQueue
    exact ⟨{ hok with singletonPutRequestQueue := hrest }, List.forall_mem_singleton.mpr hput⟩

end Lemmas

end TwigKV.Server
