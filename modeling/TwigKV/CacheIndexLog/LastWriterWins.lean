import TwigKV.CacheIndexLog.LogSender
import TwigKV.Foundations.LastWrite
import Mathlib.Data.List.Nodup
import Mathlib.Logic.Nontrivial.Defs

/-! # Last writer wins, batch by batch

One server appends entries to its cache-index log; a peer's background worker applies each shipped
batch completely before the next one arrives. A batch is cut at slot `0`, which holds the newest
entry, while the worker walks the slots from `0` upwards, or from wherever it stands when the batch
arrives. The peer's replica therefore holds the most recent entry of every key exactly when no batch
carries two different index entries for one key (`lastWriterWins_iff`). The slots are those of the
64-bit counter, so the result covers the batches after it wraps. -/

namespace TwigKV.CacheIndexLog

variable {RDMACacheIndex : Type*}

/-- A server that appends to its log, with one peer's copy of the buffer and replica of the
index. -/
structure LogLink (RDMACacheIndex : Type*) where
  /-- The server. -/
  sender : LogSender RDMACacheIndex
  /-- The peer's copy of the buffer. -/
  peerLog : LogBuffer RDMACacheIndex
  /-- The peer's replica of the server's cache index. -/
  replica : CacheIndex RDMACacheIndex

/-- Before the first call. -/
def LogLink.initial (consts : LogConstants RDMACacheIndex) (replica : CacheIndex RDMACacheIndex) :
    LogLink RDMACacheIndex :=
  ⟨.initial consts, fun _ => .initial consts, replica⟩

/-- A complete `append_entry` call, number `n`. A call that falls on slot `0` ships the buffer; the
worker finishes the pass it is in, at slot `start`, and makes a full one. -/
def LogLink.appendEntry (consts : LogConstants RDMACacheIndex) (maxCacheLogIndex : UInt64)
    (script : AppendScript RDMACacheIndex) (start : ℕ) (link : LogLink RDMACacheIndex) (n : ℕ) :
    LogLink RDMACacheIndex :=
  let sender := link.sender.appendEntry maxCacheLogIndex script n
  if link.sender.logIndex.toNat % maxCacheLogIndex.toNat = 0 then
    let applied := sweepFrom consts maxCacheLogIndex.toNat 0
      (sweepFrom consts maxCacheLogIndex.toNat start (sender.log, link.replica))
    ⟨sender, applied.1, applied.2⟩
  else { link with sender := sender }

/-- The link after the calls below `n`. `start c` is the slot the peer's worker stands at when the
batch of call number `c` arrives. -/
def linkAfter (consts : LogConstants RDMACacheIndex) (maxCacheLogIndex : UInt64)
    (script : AppendScript RDMACacheIndex) (start : ℕ → ℕ) (replica : CacheIndex RDMACacheIndex) :
    ℕ → LogLink RDMACacheIndex
  | 0 => .initial consts replica
  | n + 1 => (linkAfter consts maxCacheLogIndex script start replica n).appendEntry consts
      maxCacheLogIndex script (start n) n

/-- The key and index entry of a log entry. -/
def CacheIndexLogEntry.write (e : CacheIndexLogEntry RDMACacheIndex) : UInt64 × RDMACacheIndex :=
  (e.key, e.cacheIndex)

/-- **Last writer wins** for the first `calls` calls: after the batch of every call that falls on
slot `0`, the peer's replica holds for every key of a shipped entry the index entry of the most
recently appended one. The worker may stand at any slot when a batch arrives, and the replica may
hold anything before the first batch. Up to such a call every entry has been shipped
(`exists_ship`). -/
def LastWriterWins (consts : LogConstants RDMACacheIndex) (maxCacheLogIndex : UInt64)
    (script : AppendScript RDMACacheIndex) (calls : ℕ) : Prop :=
  ∀ (start : ℕ → ℕ) (replica : CacheIndex RDMACacheIndex), ∀ n < calls,
    slotOf maxCacheLogIndex n = 0 → ∀ key cacheIndex,
      lastWritten ((List.range (n + 1)).map fun c => (script.entries c).write) key
        = some cacheIndex →
      (linkAfter consts maxCacheLogIndex script start replica (n + 1)).replica key = cacheIndex

/-- In every shipped batch a key has one index entry, and no entry has the key the worker skips. -/
def OneIndexPerKey (consts : LogConstants RDMACacheIndex) (maxCacheLogIndex : UInt64)
    (script : AppendScript RDMACacheIndex) (calls : ℕ) : Prop :=
  ∀ n < calls, slotOf maxCacheLogIndex n = 0 → ∀ c ∈ batchCalls maxCacheLogIndex n,
    (script.entries c).key ≠ consts.keyValuePtrInvalid ∧
      ∀ c' ∈ batchCalls maxCacheLogIndex n, (script.entries c).key = (script.entries c').key →
        (script.entries c).cacheIndex = (script.entries c').cacheIndex

/-! ## What a sweep applies -/

/-- The writes to the replica that applying some slots in order makes. -/
def slotWrites (consts : LogConstants RDMACacheIndex) (log : LogBuffer RDMACacheIndex)
    (slots : List ℕ) : List (UInt64 × RDMACacheIndex) :=
  ((slots.map log).filter fun e => e.filled && e.key != consts.keyValuePtrInvalid).map
    CacheIndexLogEntry.write

/-- The writes of a concatenation. -/
theorem slotWrites_append (consts : LogConstants RDMACacheIndex) (log : LogBuffer RDMACacheIndex)
    (slots slots' : List ℕ) : slotWrites consts log (slots ++ slots')
      = slotWrites consts log slots ++ slotWrites consts log slots' := by
  rw [slotWrites, List.map_append, List.filter_append, List.map_append, slotWrites, slotWrites]

/-- The writes depend only on the slots applied. -/
theorem slotWrites_congr {consts : LogConstants RDMACacheIndex}
    {log log' : LogBuffer RDMACacheIndex} {slots : List ℕ} (h : ∀ j ∈ slots, log j = log' j) :
    slotWrites consts log slots = slotWrites consts log' slots := by
  rw [slotWrites, List.map_congr_left h, slotWrites]

/-- Slots that are not filled make no writes. -/
theorem slotWrites_eq_nil {consts : LogConstants RDMACacheIndex}
    {log : LogBuffer RDMACacheIndex} {slots : List ℕ}
    (h : ∀ j ∈ slots, (log j).filled = false) : slotWrites consts log slots = [] := by
  rw [slotWrites, List.map_eq_nil_iff, List.filter_eq_nil_iff]
  intro e he
  obtain ⟨j, hj, rfl⟩ := List.mem_map.mp he
  rw [h j hj]
  simp

/-- The writes of some slots come from filled ones with an ordinary key. -/
theorem mem_slotWrites_iff {consts : LogConstants RDMACacheIndex}
    {log : LogBuffer RDMACacheIndex} {slots : List ℕ} {w : UInt64 × RDMACacheIndex} :
    w ∈ slotWrites consts log slots ↔ ∃ j ∈ slots, (log j).filled = true ∧
      (log j).key ≠ consts.keyValuePtrInvalid ∧ (log j).write = w := by
  rw [slotWrites, List.mem_map]
  constructor
  · rintro ⟨e, he, rfl⟩
    obtain ⟨hmem, hcond⟩ := List.mem_filter.mp he
    obtain ⟨j, hj, rfl⟩ := List.mem_map.mp hmem
    rw [Bool.and_eq_true, bne_iff_ne] at hcond
    exact ⟨j, hj, hcond.1, hcond.2, rfl⟩
  · rintro ⟨j, hj, hfilled, hkey, rfl⟩
    refine ⟨log j, List.mem_filter.mpr ⟨List.mem_map_of_mem hj, ?_⟩, rfl⟩
    rw [Bool.and_eq_true, bne_iff_ne]
    exact ⟨hfilled, hkey⟩

/-- Applying one slot makes its write. -/
theorem applySlot_snd (consts : LogConstants RDMACacheIndex) (j : ℕ)
    (st : LogBuffer RDMACacheIndex × CacheIndex RDMACacheIndex) :
    (applySlot consts j st).2 = applyWrites st.2 (slotWrites consts st.1 [j]) := by
  rw [applySlot, slotWrites]
  cases hf : (st.1 j).filled with
  | false => simp [hf, applyWrites]
  | true =>
      by_cases hkey : (st.1 j).key = consts.keyValuePtrInvalid
      · simp [hf, hkey, applyWrites]
      · simp [hf, hkey, applyWrites, CacheIndexLogEntry.write]

/-- Applying distinct slots one after the other makes their writes in order and clears them. -/
theorem foldl_applySlot (consts : LogConstants RDMACacheIndex) {slots : List ℕ}
    (hnodup : slots.Nodup) (st : LogBuffer RDMACacheIndex × CacheIndex RDMACacheIndex) :
    (slots.foldl (fun st j => applySlot consts j st) st).2
        = applyWrites st.2 (slotWrites consts st.1 slots) ∧
      ∀ j, (slots.foldl (fun st j => applySlot consts j st) st).1 j
        = if j ∈ slots then { st.1 j with filled := false } else st.1 j := by
  induction slots generalizing st with
  | nil => exact ⟨rfl, fun j => rfl⟩
  | cons i slots ih =>
      obtain ⟨hi, hnodup'⟩ := List.nodup_cons.mp hnodup
      obtain ⟨hsnd, hfst⟩ := ih hnodup' (applySlot consts i st)
      rw [List.foldl_cons]
      constructor
      · have hrest : slotWrites consts (applySlot consts i st).1 slots
            = slotWrites consts st.1 slots := slotWrites_congr fun j hj => by
          rw [applySlot_fst]
          exact clearFilled_of_ne _ fun heq => hi (heq ▸ hj)
        rw [hsnd, applySlot_snd, hrest, ← applyWrites_append, ← slotWrites_append,
          List.singleton_append]
      · intro j
        rw [hfst j, applySlot_fst]
        by_cases hji : j = i
        · subst hji
          rw [if_neg hi, if_pos List.mem_cons_self, clearFilled_self]
        · rw [clearFilled_of_ne _ hji]
          simp [hji]

/-- The order in which a worker that stands at slot `start` reaches the slots of a batch. -/
def applicationOrder (maxCacheLogIndex start : ℕ) : List ℕ :=
  List.range' start (maxCacheLogIndex - start) ++ List.range (min start maxCacheLogIndex)

/-- The rest of the current pass and the next full pass apply every slot once, in that order. -/
theorem sweepFrom_sweepFrom_snd (consts : LogConstants RDMACacheIndex) (maxCacheLogIndex start : ℕ)
    (log : LogBuffer RDMACacheIndex) (replica : CacheIndex RDMACacheIndex) :
    (sweepFrom consts maxCacheLogIndex 0
        (sweepFrom consts maxCacheLogIndex start (log, replica))).2
      = applyWrites replica
          (slotWrites consts log (applicationOrder maxCacheLogIndex start)) := by
  obtain ⟨hsnd, hfst⟩ := foldl_applySlot consts
    (List.nodup_range' : (List.range' start (maxCacheLogIndex - start)).Nodup) (log, replica)
  obtain ⟨hsnd', -⟩ := foldl_applySlot consts
    (List.nodup_range' : (List.range' 0 (maxCacheLogIndex - 0)).Nodup)
    (sweepFrom consts maxCacheLogIndex start (log, replica))
  have hlog : ∀ j < maxCacheLogIndex, (sweepFrom consts maxCacheLogIndex start (log, replica)).1 j
      = if start ≤ j then { log j with filled := false } else log j := by
    intro j hj
    rw [sweepFrom]
    simp only
    rw [clearFilled_of_ne _ (Nat.ne_of_lt hj), hfst j]
    simp only [List.mem_range'_1]
    split_ifs with h1 h2 h2
    · rfl
    · exact absurd h1.1 h2
    · exact absurd ⟨h2, by omega⟩ h1
    · rfl
  -- the full pass finds filled only the slots before `start`
  have hsplit : List.range' 0 (maxCacheLogIndex - 0)
      = List.range' 0 (min start maxCacheLogIndex) ++
        List.range' (min start maxCacheLogIndex)
          (maxCacheLogIndex - min start maxCacheLogIndex) := by
    have happend := @List.range'_append_1 0 (min start maxCacheLogIndex)
      (maxCacheLogIndex - min start maxCacheLogIndex)
    rw [Nat.zero_add] at happend
    rw [happend]
    congr 1
    omega
  have hbefore : slotWrites consts (sweepFrom consts maxCacheLogIndex start (log, replica)).1
      (List.range' 0 (maxCacheLogIndex - 0))
      = slotWrites consts log (List.range (min start maxCacheLogIndex)) := by
    have hcleared : slotWrites consts (sweepFrom consts maxCacheLogIndex start (log, replica)).1
        (List.range' (min start maxCacheLogIndex)
          (maxCacheLogIndex - min start maxCacheLogIndex)) = [] := by
      refine slotWrites_eq_nil fun j hj => ?_
      obtain ⟨hge, hlt⟩ := List.mem_range'_1.mp hj
      rw [hlog j (by omega), if_pos (by omega)]
    rw [hsplit, slotWrites_append, hcleared, List.append_nil, List.range_eq_range']
    refine slotWrites_congr fun j hj => ?_
    have := (List.mem_range'_1.mp hj).2
    rw [hlog j (by omega), if_neg (by omega)]
  have hfirst : (sweepFrom consts maxCacheLogIndex start (log, replica)).2
      = applyWrites replica
          (slotWrites consts log (List.range' start (maxCacheLogIndex - start))) := hsnd
  rw [sweepFrom]
  simp only
  rw [hsnd', hbefore, hfirst, ← applyWrites_append, ← slotWrites_append, applicationOrder]

/-- Every slot of a batch is applied. -/
theorem mem_applicationOrder_iff {maxCacheLogIndex start j : ℕ} :
    j ∈ applicationOrder maxCacheLogIndex start ↔ j < maxCacheLogIndex := by
  rw [applicationOrder, List.mem_append, List.mem_range'_1, List.mem_range]
  omega

/-- A worker that stands behind slot `j` applies it last. -/
theorem applicationOrder_succ {maxCacheLogIndex j : ℕ} (hj : j < maxCacheLogIndex) :
    ∃ before, applicationOrder maxCacheLogIndex (j + 1) = before ++ [j] := by
  rw [applicationOrder, Nat.min_eq_left hj, List.range_succ, ← List.append_assoc]
  exact ⟨_, rfl⟩

/-! ## What a batch writes -/

section Batch

variable {consts : LogConstants RDMACacheIndex} {maxCacheLogIndex : UInt64}
  {script : AppendScript RDMACacheIndex} {start : ℕ → ℕ} {replica : CacheIndex RDMACacheIndex}
  {n : ℕ}

/-- The server of a link does not depend on the peer. -/
theorem linkAfter_sender : (linkAfter consts maxCacheLogIndex script start replica n).sender
    = senderAfter consts maxCacheLogIndex script n := by
  induction n with
  | zero => rfl
  | succ n ih =>
      rw [linkAfter, LogLink.appendEntry, ih]
      split
      · rfl
      · rfl

/-- A call that falls on slot `0` has its batch applied. -/
theorem linkAfter_replica_of_ship (h : slotOf maxCacheLogIndex n = 0) :
    (linkAfter consts maxCacheLogIndex script start replica (n + 1)).replica
      = applyWrites (linkAfter consts maxCacheLogIndex script start replica n).replica
          (slotWrites consts (senderAfter consts maxCacheLogIndex script (n + 1)).log
            (applicationOrder maxCacheLogIndex.toNat (start n))) := by
  rw [← sweepFrom_sweepFrom_snd, linkAfter, LogLink.appendEntry, linkAfter_sender,
    if_pos ((senderAfter_slot n).trans h)]
  rfl

/-- The other calls leave the replica alone. -/
theorem linkAfter_replica_of_ne (h : slotOf maxCacheLogIndex n ≠ 0) :
    (linkAfter consts maxCacheLogIndex script start replica (n + 1)).replica
      = (linkAfter consts maxCacheLogIndex script start replica n).replica := by
  rw [linkAfter, LogLink.appendEntry, linkAfter_sender,
    if_neg fun h0 => h ((senderAfter_slot n).symm.trans h0)]

/-- A call of a batch stands in its slot. -/
theorem senderAfter_log_of_mem_batchCalls (hmax : 1 ≤ maxCacheLogIndex.toNat) {c : ℕ}
    (hc : c ∈ batchCalls maxCacheLogIndex n) :
    (senderAfter consts maxCacheLogIndex script (n + 1)).log (slotOf maxCacheLogIndex c)
      = { script.entries c with filled := true } := by
  obtain ⟨hlt, hlast⟩ := mem_batchCalls.mp hc
  have hwriter := (@senderAfter_writer_iff _ consts maxCacheLogIndex script (n + 1) _ c).mpr
    ⟨hlt, rfl, hlast⟩
  have hlog := @senderAfter_log _ consts maxCacheLogIndex script (n + 1) _
    (Nat.mod_lt (c % 2 ^ 64) hmax)
  rw [← slotOf, hwriter] at hlog
  exact hlog

/-- The writes of a batch are those of its calls with an ordinary key, in some order. -/
theorem mem_slotWrites_batch_iff (hmax : 1 ≤ maxCacheLogIndex.toNat) {s : ℕ}
    {w : UInt64 × RDMACacheIndex} :
    w ∈ slotWrites consts (senderAfter consts maxCacheLogIndex script (n + 1)).log
        (applicationOrder maxCacheLogIndex.toNat s) ↔
      ∃ c ∈ batchCalls maxCacheLogIndex n, (script.entries c).key ≠ consts.keyValuePtrInvalid ∧
        (script.entries c).write = w := by
  rw [mem_slotWrites_iff]
  constructor
  · rintro ⟨j, hj, hfilled, hkey, rfl⟩
    rw [mem_applicationOrder_iff] at hj
    obtain ⟨c, hwriter, hlog⟩ := senderAfter_faithful (n + 1) j hj hfilled
    obtain ⟨hlt, rfl, hlast⟩ := senderAfter_writer_iff.mp hwriter
    rw [hlog] at hkey ⊢
    exact ⟨c, mem_batchCalls.mpr ⟨hlt, hlast⟩, hkey, rfl⟩
  · rintro ⟨c, hc, hkey, rfl⟩
    have hlog := @senderAfter_log_of_mem_batchCalls _ consts maxCacheLogIndex script n hmax c hc
    refine ⟨slotOf maxCacheLogIndex c, mem_applicationOrder_iff.mpr (Nat.mod_lt _ hmax), ?_⟩
    rw [hlog]
    exact ⟨rfl, hkey, rfl⟩

/-- The worker never writes the key it skips. -/
theorem linkAfter_replica_invalid :
    (linkAfter consts maxCacheLogIndex script start replica n).replica consts.keyValuePtrInvalid
      = replica consts.keyValuePtrInvalid := by
  induction n with
  | zero => rfl
  | succ n ih =>
      by_cases hslot : slotOf maxCacheLogIndex n = 0
      · rw [linkAfter_replica_of_ship hslot, applyWrites_apply, ih]
        cases hlast : lastWritten (slotWrites consts _ _) consts.keyValuePtrInvalid with
        | none => rfl
        | some cacheIndex =>
            obtain ⟨j, -, -, hkey, hw⟩ := mem_slotWrites_iff.mp (mem_of_lastWritten hlast)
            exact absurd (congrArg Prod.fst hw) hkey
      · rw [linkAfter_replica_of_ne hslot, ih]

/-- A worker that stands behind the slot of a call leaves its entry in the replica. -/
theorem exists_start_of_mem_batchCalls (hmax : 1 ≤ maxCacheLogIndex.toNat)
    (hn : slotOf maxCacheLogIndex n = 0) {c : ℕ} (hc : c ∈ batchCalls maxCacheLogIndex n)
    (hkey : (script.entries c).key ≠ consts.keyValuePtrInvalid)
    (replica : CacheIndex RDMACacheIndex) :
    ∃ start : ℕ → ℕ, (linkAfter consts maxCacheLogIndex script start replica (n + 1)).replica
      (script.entries c).key = (script.entries c).cacheIndex := by
  obtain ⟨before, horder⟩ := applicationOrder_succ (Nat.mod_lt (c % 2 ^ 64) hmax)
  rw [← slotOf] at horder
  refine ⟨fun _ => slotOf maxCacheLogIndex c + 1, ?_⟩
  have hlast : slotWrites consts (senderAfter consts maxCacheLogIndex script (n + 1)).log
      [slotOf maxCacheLogIndex c] = [(script.entries c).write] := by
    rw [slotWrites, List.map_singleton, senderAfter_log_of_mem_batchCalls hmax hc]
    simp [hkey, CacheIndexLogEntry.write]
  have hwrite : lastWritten [(script.entries c).write] (script.entries c).key
      = some (script.entries c).cacheIndex := by
    rw [lastWritten, List.foldl_cons, List.foldl_nil]
    exact Function.update_self _ _ _
  rw [linkAfter_replica_of_ship hn, horder, slotWrites_append, applyWrites_append,
    applyWrites_apply, hlast, hwrite, Option.getD_some]

end Batch

/-! ## The result -/

section Result

variable {consts : LogConstants RDMACacheIndex} {maxCacheLogIndex : UInt64}
  {script : AppendScript RDMACacheIndex} {calls : ℕ}

/-- A call below `n` has been shipped by one below `n`. -/
def ShippedBefore (maxCacheLogIndex : UInt64) (n c : ℕ) : Prop :=
  ∃ b, c ≤ b ∧ b < n ∧ slotOf maxCacheLogIndex b = 0

/-- The replica holds the index entry of the newest shipped call of every key. -/
def HoldsNewest (maxCacheLogIndex : UInt64) (script : AppendScript RDMACacheIndex) (n : ℕ)
    (replica : CacheIndex RDMACacheIndex) : Prop :=
  ∀ c, ShippedBefore maxCacheLogIndex n c →
    (∀ c', c < c' → ShippedBefore maxCacheLogIndex n c' →
      (script.entries c').key ≠ (script.entries c).key) →
    replica (script.entries c).key = (script.entries c).cacheIndex

/-- What a batch writes under the key of the newest call of that key is the entry of this call: both
have been in the batch that shipped the newer one. -/
theorem cacheIndex_of_batch (hmax : 1 ≤ maxCacheLogIndex.toNat)
    (h : OneIndexPerKey consts maxCacheLogIndex script calls) {n : ℕ} (hn : n < calls)
    (hslot : slotOf maxCacheLogIndex n = 0) {c newest : ℕ} (hc : c ∈ batchCalls maxCacheLogIndex n)
    (hnewest : newest ≤ n) (hkey : (script.entries c).key = (script.entries newest).key)
    (hle : c ≤ newest) : (script.entries c).cacheIndex = (script.entries newest).cacheIndex := by
  obtain ⟨b, hbn, hnb, hb, hmem⟩ := exists_ship hmax hnewest hslot
  obtain ⟨-, hlast⟩ := mem_batchCalls.mp hc
  have hold : c ∈ batchCalls maxCacheLogIndex b :=
    mem_batchCalls.mpr ⟨by omega, fun c' hlt hle' => hlast c' hlt (by omega)⟩
  exact (h b (by omega) hb c hold).2 newest hmem hkey

/-- A batch with one index entry per key leaves the newest entries in the replica. -/
theorem HoldsNewest.ship (hmax : 1 ≤ maxCacheLogIndex.toNat)
    (h : OneIndexPerKey consts maxCacheLogIndex script calls) {n : ℕ} (hn : n < calls)
    (hslot : slotOf maxCacheLogIndex n = 0) {replica : CacheIndex RDMACacheIndex} {s : ℕ}
    (hinv : HoldsNewest maxCacheLogIndex script n replica) :
    HoldsNewest maxCacheLogIndex script (n + 1) (applyWrites replica
      (slotWrites consts (senderAfter consts maxCacheLogIndex script (n + 1)).log
        (applicationOrder maxCacheLogIndex.toNat s))) := by
  intro newest hshipped hnone
  obtain ⟨b, hnb, hbn, -⟩ := hshipped
  have hnewest : newest ≤ n := by omega
  rw [applyWrites_apply]
  cases hlast : lastWritten (slotWrites consts
      (senderAfter consts maxCacheLogIndex script (n + 1)).log
      (applicationOrder maxCacheLogIndex.toNat s)) (script.entries newest).key with
  | some cacheIndex =>
      obtain ⟨c, hc, -, hwrite⟩ := (mem_slotWrites_batch_iff hmax).mp (mem_of_lastWritten hlast)
      have hkey : (script.entries c).key = (script.entries newest).key := congrArg Prod.fst hwrite
      have hvalue : (script.entries c).cacheIndex = cacheIndex := congrArg Prod.snd hwrite
      have hcn := (mem_batchCalls.mp hc).1
      have hle : c ≤ newest := by
        by_contra hlater
        exact hnone c (by omega) ⟨n, by omega, Nat.lt_succ_self n, hslot⟩ hkey
      rw [Option.getD_some, ← hvalue]
      exact cacheIndex_of_batch hmax h hn hslot hc hnewest hkey hle
  | none =>
      -- the newest call has left the buffer, so an earlier batch has shipped it
      obtain ⟨b, hbn, hnb, hb, hmem⟩ := exists_ship hmax hnewest hslot
      have hearlier : b < n := by
        refine Nat.lt_of_le_of_ne hbn ?_
        rintro rfl
        have hwritten := lastWritten_isSome_of_mem
          ((@mem_slotWrites_batch_iff _ consts maxCacheLogIndex script b hmax s _).mpr
            ⟨newest, hmem, (h b hn hslot newest hmem).1, rfl⟩)
        rw [hlast] at hwritten
        exact Bool.false_ne_true hwritten
      rw [Option.getD_none]
      refine hinv newest ⟨b, hnb, hearlier, hb⟩ fun c' hlt hshipped => ?_
      obtain ⟨b', hcb, hbn', hb'⟩ := hshipped
      exact hnone c' hlt ⟨b', hcb, Nat.lt_succ_of_lt hbn', hb'⟩

/-- With one index entry per key in every batch the replica holds the newest shipped entries after
any number of calls. -/
theorem holdsNewest_linkAfter (hmax : 1 ≤ maxCacheLogIndex.toNat)
    (h : OneIndexPerKey consts maxCacheLogIndex script calls) (start : ℕ → ℕ)
    (replica : CacheIndex RDMACacheIndex) {n : ℕ} (hn : n ≤ calls) :
    HoldsNewest maxCacheLogIndex script n
      (linkAfter consts maxCacheLogIndex script start replica n).replica := by
  induction n with
  | zero =>
      rintro c ⟨b, -, hb, -⟩
      exact absurd hb (Nat.not_lt_zero b)
  | succ n ih =>
      by_cases hslot : slotOf maxCacheLogIndex n = 0
      · rw [linkAfter_replica_of_ship hslot]
        exact (ih (Nat.le_of_lt hn)).ship hmax h hn hslot
      · have hsame : ∀ c, ShippedBefore maxCacheLogIndex (n + 1) c →
            ShippedBefore maxCacheLogIndex n c := by
          rintro c ⟨b, hcb, hbn, hb⟩
          refine ⟨b, hcb, Nat.lt_of_le_of_ne (Nat.le_of_lt_succ hbn) ?_, hb⟩
          rintro rfl
          exact hslot hb
        rw [linkAfter_replica_of_ne hslot]
        intro c hshipped hnone
        refine ih (Nat.le_of_lt hn) c (hsame c hshipped) fun c' hlt hshipped' => ?_
        obtain ⟨b, hcb, hbn, hb⟩ := hshipped'
        exact hnone c' hlt ⟨b, hcb, Nat.lt_succ_of_lt hbn, hb⟩

/-- With one index entry per key in every batch the last writer wins. -/
theorem lastWriterWins_of_oneIndexPerKey (hmax : 1 ≤ maxCacheLogIndex.toNat)
    (h : OneIndexPerKey consts maxCacheLogIndex script calls) :
    LastWriterWins consts maxCacheLogIndex script calls := by
  intro start replica n hn hslot key cacheIndex hlast
  obtain ⟨c, hc, hwrite, hnone⟩ := lastWritten_range_eq_some_iff.mp hlast
  obtain ⟨rfl, rfl⟩ : (script.entries c).key = key ∧ (script.entries c).cacheIndex = cacheIndex :=
    Prod.mk.inj hwrite
  refine holdsNewest_linkAfter hmax h start replica hn c
    ⟨n, Nat.le_of_lt_succ hc, Nat.lt_succ_self n, hslot⟩ fun c' hlt hshipped => ?_
  obtain ⟨b, hcb, hbn, -⟩ := hshipped
  exact hnone c' hlt (by omega)

/-- Last writer wins only if every batch has one index entry per key. -/
theorem oneIndexPerKey_of_lastWriterWins [Nontrivial RDMACacheIndex]
    (hmax : 1 ≤ maxCacheLogIndex.toNat)
    (h : LastWriterWins consts maxCacheLogIndex script calls) :
    OneIndexPerKey consts maxCacheLogIndex script calls := by
  intro n hn hslot c hc
  -- the newest shipped entry of the key
  have hmem : ((script.entries c).key, (script.entries c).cacheIndex)
      ∈ (List.range (n + 1)).map fun c => (script.entries c).write :=
    List.mem_map.mpr ⟨c, List.mem_range.mpr (mem_batchCalls.mp hc).1, rfl⟩
  obtain ⟨newest, hnewest⟩ := Option.isSome_iff_exists.mp (lastWritten_isSome_of_mem hmem)
  have hkey : (script.entries c).key ≠ consts.keyValuePtrInvalid := by
    intro hinvalid
    obtain ⟨other, hother⟩ := exists_ne newest
    have hreplica := h (fun _ => 0) (fun _ => other) n hn hslot _ newest hnewest
    rw [hinvalid, linkAfter_replica_invalid] at hreplica
    exact hother hreplica
  have hvalue : ∀ c' ∈ batchCalls maxCacheLogIndex n,
      (script.entries c').key = (script.entries c).key →
        (script.entries c').cacheIndex = newest := by
    intro c' hc' hkey'
    obtain ⟨start, hstart⟩ := exists_start_of_mem_batchCalls hmax hslot hc' (hkey' ▸ hkey)
      (fun _ => newest)
    rw [← hstart, hkey']
    exact h start (fun _ => newest) n hn hslot _ newest hnewest
  exact ⟨hkey, fun c' hc' hee => by rw [hvalue c hc rfl, hvalue c' hc' hee.symm]⟩

/-- **When the last writer wins.** For every log size and every sequence of calls, after each batch
the peer's replica holds the most recently appended index entry of every shipped key, wherever the
worker stood when the batches arrived, exactly when no batch carries two different index entries for
one key and no entry has the key the worker skips. -/
theorem lastWriterWins_iff [Nontrivial RDMACacheIndex] (hmax : 1 ≤ maxCacheLogIndex) :
    LastWriterWins consts maxCacheLogIndex script calls ↔
      OneIndexPerKey consts maxCacheLogIndex script calls :=
  have hmax' : 1 ≤ maxCacheLogIndex.toNat := UInt64.le_iff_toNat_le.mp hmax
  ⟨oneIndexPerKey_of_lastWriterWins hmax', lastWriterWins_of_oneIndexPerKey hmax'⟩

end Result

/-- A script whose further entries do not matter. -/
def scriptOf (entries : List (CacheIndexLogEntry UInt64)) : AppendScript UInt64 :=
  ⟨fun c => entries.getD c ⟨0, 0, false⟩, fun _ => ⟨0, 0, false⟩⟩

/-- Three updates of two keys through a log of two slots. -/
theorem lastWriterWins_iff_three_calls :
    LastWriterWins ⟨-1, -1⟩ 2
      (scriptOf [⟨5, 10, false⟩, ⟨6, 20, false⟩, ⟨5, 30, false⟩]) 3 := by
  have : Nontrivial UInt64 := ⟨0, 1, by decide⟩
  refine (lastWriterWins_iff (by decide)).mpr fun n hn hslot => ?_
  obtain rfl | rfl | rfl : n = 0 ∨ n = 1 ∨ n = 2 := by omega
  · decide
  · exact absurd hslot (by decide)
  · decide

/-- Key `5` is updated by calls `1` and `2`, which share a batch of a log of two slots: the worker
applies slot `0` with the newer entry first, and the replica is left with the older one. -/
theorem older_entry_wins :
    ¬ LastWriterWins ⟨-1, -1⟩ 2
      (scriptOf [⟨4, 10, false⟩, ⟨5, 20, false⟩, ⟨5, 30, false⟩]) 3 := by
  intro h
  exact absurd (h (fun _ => 0) (fun _ => 0) 2 (by decide) (by decide) 5 30 (by decide)) (by decide)

end TwigKV.CacheIndexLog
