import TwigKV.CacheIndexLog.LogEntries
import Mathlib.Data.List.Range
import Mathlib.Data.Nat.Find
import Mathlib.Data.UInt

/-! # The sender of the cache-index log

A server appends entries to its own buffer, one call after the other. The slot of a call is given by
a 64-bit counter, which wraps; the flush comes at slot `0` and ships the whole buffer, and the
sender never clears a `filled` flag. Which entries a batch carries therefore depends on which calls
wrote the slots last (`mem_calls_senderAfter`). No call is overwritten before it is shipped
(`exists_ship`). -/

namespace TwigKV.CacheIndexLog

variable {RDMACacheIndex : Type*}

/-! ## The sender -/

/-- The log buffer of a server that appends to it, between two calls. -/
structure LogSender (RDMACacheIndex : Type*) where
  /-- The buffer. -/
  log : LogBuffer RDMACacheIndex
  /-- `index`. -/
  logIndex : UInt64
  /-- Ghost: the number of the call whose entry a slot holds. -/
  writer : ℕ → Option ℕ

/-- Before the first call. -/
def LogSender.initial (consts : LogConstants RDMACacheIndex) : LogSender RDMACacheIndex :=
  ⟨fun _ => .initial consts, 0, fun _ => none⟩

/-- What a server is asked to append, and what its peers' flags leave behind. -/
structure AppendScript (RDMACacheIndex : Type*) where
  /-- The entry of every call. -/
  entries : ℕ → CacheIndexLogEntry RDMACacheIndex
  /-- The entry that the readiness loop of a call has read into the flag slot last. -/
  lastEntry : ℕ → CacheIndexLogEntry RDMACacheIndex

/-- The first lines of `append_entry`: the counter moves on, the entry goes to its slot. -/
def LogSender.store (maxCacheLogIndex : UInt64) (sender : LogSender RDMACacheIndex) (n : ℕ)
    (entry : CacheIndexLogEntry RDMACacheIndex) : LogSender RDMACacheIndex :=
  let currentLogIndex := sender.logIndex.toNat % maxCacheLogIndex.toNat
  ⟨storeEntry maxCacheLogIndex.toNat sender.logIndex entry sender.log, sender.logIndex + 1,
    Function.update sender.writer currentLogIndex (some n)⟩

/-- The end of the readiness loop: the flag slot is set in the buffer to be shipped. -/
def LogSender.setFlag (maxCacheLogIndex : UInt64) (lastEntry : CacheIndexLogEntry RDMACacheIndex)
    (sender : LogSender RDMACacheIndex) : LogSender RDMACacheIndex :=
  { sender with
    log := setFilled (Function.update sender.log maxCacheLogIndex.toNat lastEntry)
      maxCacheLogIndex.toNat }

/-- A complete `append_entry` call, number `n`. -/
def LogSender.appendEntry (maxCacheLogIndex : UInt64) (script : AppendScript RDMACacheIndex)
    (sender : LogSender RDMACacheIndex) (n : ℕ) : LogSender RDMACacheIndex :=
  let stored := sender.store maxCacheLogIndex n (script.entries n)
  if sender.logIndex.toNat % maxCacheLogIndex.toNat = 0 then
    stored.setFlag maxCacheLogIndex (script.lastEntry n)
  else stored

/-- The sender after the calls below `n`. -/
def senderAfter (consts : LogConstants RDMACacheIndex) (maxCacheLogIndex : UInt64)
    (script : AppendScript RDMACacheIndex) : ℕ → LogSender RDMACacheIndex
  | 0 => .initial consts
  | n + 1 => (senderAfter consts maxCacheLogIndex script n).appendEntry maxCacheLogIndex script n

/-- The buffer that call number `n` writes to the peers: `none` where the call does not fall on slot
`0`. -/
def shippedBatch (consts : LogConstants RDMACacheIndex) (maxCacheLogIndex : UInt64)
    (script : AppendScript RDMACacheIndex) (n : ℕ) : Option (LogSender RDMACacheIndex) :=
  if (senderAfter consts maxCacheLogIndex script n).logIndex.toNat % maxCacheLogIndex.toNat = 0 then
    some (senderAfter consts maxCacheLogIndex script (n + 1))
  else none

/-- The calls whose entries stand in the filled slots below the flag slot, in slot order. -/
def LogSender.calls (maxCacheLogIndex : UInt64) (batch : LogSender RDMACacheIndex) : List ℕ :=
  (List.range maxCacheLogIndex.toNat).filterMap fun j =>
    if (batch.log j).filled then batch.writer j else none

/-- The calls whose entries call number `n` ships. -/
def callsShippedBy (consts : LogConstants RDMACacheIndex) (maxCacheLogIndex : UInt64)
    (script : AppendScript RDMACacheIndex) (n : ℕ) : List ℕ :=
  ((shippedBatch consts maxCacheLogIndex script n).map (LogSender.calls maxCacheLogIndex)).getD []

/-- The calls whose entries the first `calls` calls have shipped, with repetitions. -/
def shippedCalls (consts : LogConstants RDMACacheIndex) (maxCacheLogIndex : UInt64)
    (script : AppendScript RDMACacheIndex) (calls : ℕ) : List ℕ :=
  (List.range calls).flatMap (callsShippedBy consts maxCacheLogIndex script)

/-- The filled slots below the flag slot hold the entries of the calls they are attributed to. -/
def LogSender.Faithful (maxCacheLogIndex : UInt64) (script : AppendScript RDMACacheIndex)
    (batch : LogSender RDMACacheIndex) : Prop :=
  ∀ j < maxCacheLogIndex.toNat, (batch.log j).filled = true →
    ∃ n, batch.writer j = some n ∧ batch.log j = { script.entries n with filled := true }

/-- The slot that call number `n` falls on. -/
def slotOf (maxCacheLogIndex : UInt64) (n : ℕ) : ℕ :=
  n % 2 ^ 64 % maxCacheLogIndex.toNat

/-- The calls up to `n` whose slots no later call up to `n` falls on: until the counter wraps, the
last `max_cache_log_index` of them. -/
def batchCalls (maxCacheLogIndex : UInt64) (n : ℕ) : List ℕ :=
  (List.range (n + 1)).filter fun c =>
    ∀ c' < n + 1, c < c' → slotOf maxCacheLogIndex c' ≠ slotOf maxCacheLogIndex c

/-! ## What the slots hold -/

section Slots

variable {consts : LogConstants RDMACacheIndex} {maxCacheLogIndex : UInt64}
  {script : AppendScript RDMACacheIndex}

/-- The counter after the calls below `n`. -/
theorem senderAfter_logIndex (n : ℕ) :
    (senderAfter consts maxCacheLogIndex script n).logIndex = UInt64.ofNat n := by
  induction n with
  | zero => rfl
  | succ n ih =>
      have hnext : (senderAfter consts maxCacheLogIndex script (n + 1)).logIndex
          = (senderAfter consts maxCacheLogIndex script n).logIndex + 1 := by
        rw [senderAfter, LogSender.appendEntry]
        split
        · rfl
        · rfl
      rw [hnext, ih, UInt64.ofNat_add]
      rfl

/-- Call number `n` falls on its slot. -/
theorem senderAfter_slot (n : ℕ) :
    (senderAfter consts maxCacheLogIndex script n).logIndex.toNat % maxCacheLogIndex.toNat
      = slotOf maxCacheLogIndex n := by
  rw [senderAfter_logIndex, slotOf, UInt64.toNat_ofNat']

/-- Who has written a slot after one more call. -/
theorem senderAfter_succ_writer (n j : ℕ) :
    (senderAfter consts maxCacheLogIndex script (n + 1)).writer j
      = if j = slotOf maxCacheLogIndex n then some n
        else (senderAfter consts maxCacheLogIndex script n).writer j := by
  have hwriter : (senderAfter consts maxCacheLogIndex script (n + 1)).writer
      = Function.update (senderAfter consts maxCacheLogIndex script n).writer
          (slotOf maxCacheLogIndex n) (some n) := by
    rw [← @senderAfter_slot _ consts maxCacheLogIndex script n, senderAfter, LogSender.appendEntry]
    split
    · rfl
    · rfl
  rw [hwriter, Function.update_apply]

/-- What a slot below the flag slot holds after one more call. -/
theorem senderAfter_succ_log (n : ℕ) {j : ℕ} (hj : j < maxCacheLogIndex.toNat) :
    (senderAfter consts maxCacheLogIndex script (n + 1)).log j
      = if j = slotOf maxCacheLogIndex n then { script.entries n with filled := true }
        else (senderAfter consts maxCacheLogIndex script n).log j := by
  have hstore : storeEntry maxCacheLogIndex.toNat
        (senderAfter consts maxCacheLogIndex script n).logIndex (script.entries n)
        (senderAfter consts maxCacheLogIndex script n).log j
      = if j = slotOf maxCacheLogIndex n then { script.entries n with filled := true }
        else (senderAfter consts maxCacheLogIndex script n).log j := by
    rw [storeEntry, senderAfter_slot, Function.update_apply]
  rw [← hstore, senderAfter, LogSender.appendEntry]
  split
  · -- the readiness loop touches the flag slot only
    show setFilled (Function.update _ maxCacheLogIndex.toNat _) maxCacheLogIndex.toNat j = _
    rw [setFilled_of_ne _ (Nat.ne_of_lt hj), Function.update_of_ne (Nat.ne_of_lt hj)]
    rfl
  · rfl

/-- A slot below the flag slot holds the entry of the call that wrote it, and is not filled where
none has. -/
theorem senderAfter_log (n : ℕ) {j : ℕ} (hj : j < maxCacheLogIndex.toNat) :
    match (senderAfter consts maxCacheLogIndex script n).writer j with
    | some c => (senderAfter consts maxCacheLogIndex script n).log j
        = { script.entries c with filled := true }
    | none => ((senderAfter consts maxCacheLogIndex script n).log j).filled = false := by
  induction n with
  | zero => exact rfl
  | succ n ih =>
      rw [senderAfter_succ_writer, senderAfter_succ_log n hj]
      by_cases hslot : j = slotOf maxCacheLogIndex n
      · simp only [if_pos hslot]
      · simp only [if_neg hslot]
        exact ih

/-- A slot was written last by the newest call that falls on it. -/
theorem senderAfter_writer_iff {n j c : ℕ} :
    (senderAfter consts maxCacheLogIndex script n).writer j = some c ↔
      c < n ∧ slotOf maxCacheLogIndex c = j ∧
        ∀ c', c < c' → c' < n → slotOf maxCacheLogIndex c' ≠ j := by
  induction n with
  | zero => exact ⟨fun h => (by cases h), fun h => absurd h.1 (Nat.not_lt_zero c)⟩
  | succ n ih =>
      rw [senderAfter_succ_writer]
      by_cases hslot : j = slotOf maxCacheLogIndex n
      · rw [if_pos hslot, Option.some.injEq]
        constructor
        · rintro rfl
          exact ⟨Nat.lt_succ_self n, hslot.symm, fun c' hlt hle => by omega⟩
        · rintro ⟨hlt, -, hlast⟩
          by_contra hne
          exact hlast n (by omega) (Nat.lt_succ_self n) hslot.symm
      · rw [if_neg hslot, ih]
        constructor
        · rintro ⟨hlt, hc, hlast⟩
          refine ⟨Nat.lt_succ_of_lt hlt, hc, fun c' hcc' hle => ?_⟩
          rcases Nat.lt_succ_iff_lt_or_eq.mp hle with hbefore | rfl
          · exact hlast c' hcc' hbefore
          · exact Ne.symm hslot
        · rintro ⟨hle, hc, hlast⟩
          refine ⟨?_, hc, fun c' hcc' hlt => hlast c' hcc' (Nat.lt_succ_of_lt hlt)⟩
          rcases Nat.lt_succ_iff_lt_or_eq.mp hle with hlt | rfl
          · exact hlt
          · exact absurd hc.symm hslot

/-- The filled slots hold the entries of the calls that wrote them. -/
theorem senderAfter_faithful (n : ℕ) :
    (senderAfter consts maxCacheLogIndex script n).Faithful maxCacheLogIndex script := by
  intro j hj hfilled
  have hlog := @senderAfter_log _ consts maxCacheLogIndex script n j hj
  cases hwriter : (senderAfter consts maxCacheLogIndex script n).writer j with
  | none =>
      rw [hwriter] at hlog
      rw [hlog] at hfilled
      exact absurd hfilled Bool.false_ne_true
  | some c =>
      rw [hwriter] at hlog
      exact ⟨c, rfl, hlog⟩

/-- The calls a buffer carries are those that wrote its slots last. -/
theorem mem_calls_senderAfter (hmax : 1 ≤ maxCacheLogIndex.toNat) {n c : ℕ} :
    c ∈ (senderAfter consts maxCacheLogIndex script n).calls maxCacheLogIndex ↔
      c < n ∧ ∀ c', c < c' → c' < n → slotOf maxCacheLogIndex c' ≠ slotOf maxCacheLogIndex c := by
  have hfilled : ∀ j < maxCacheLogIndex.toNat, ∀ c,
      (senderAfter consts maxCacheLogIndex script n).writer j = some c →
        ((senderAfter consts maxCacheLogIndex script n).log j).filled = true := by
    intro j hj c hwriter
    have hlog := @senderAfter_log _ consts maxCacheLogIndex script n j hj
    rw [hwriter] at hlog
    rw [hlog]
  rw [LogSender.calls, List.mem_filterMap]
  constructor
  · rintro ⟨j, -, hj⟩
    split at hj
    · obtain ⟨hlt, rfl, hlast⟩ := senderAfter_writer_iff.mp hj
      exact ⟨hlt, hlast⟩
    · cases hj
  · rintro ⟨hlt, hlast⟩
    have hwriter := (@senderAfter_writer_iff _ consts maxCacheLogIndex script n _ c).mpr
      ⟨hlt, rfl, hlast⟩
    have hj : slotOf maxCacheLogIndex c < maxCacheLogIndex.toNat := Nat.mod_lt _ hmax
    refine ⟨_, List.mem_range.mpr hj, ?_⟩
    rw [if_pos (hfilled _ hj c hwriter), hwriter]

/-- A buffer carries no call twice. -/
theorem calls_senderAfter_nodup (n : ℕ) :
    ((senderAfter consts maxCacheLogIndex script n).calls maxCacheLogIndex).Nodup := by
  refine List.Nodup.filterMap (fun j j' c hj hj' => ?_) List.nodup_range
  simp only [Option.mem_def] at hj hj'
  split at hj
  · split at hj'
    · rw [← (senderAfter_writer_iff.mp hj).2.1, ← (senderAfter_writer_iff.mp hj').2.1]
    · cases hj'
  · cases hj

/-- Call number `n` ships exactly when it falls on slot `0`. -/
theorem shippedBatch_eq (n : ℕ) :
    shippedBatch consts maxCacheLogIndex script n = if slotOf maxCacheLogIndex n = 0 then
      some (senderAfter consts maxCacheLogIndex script (n + 1)) else none := by
  rw [shippedBatch, senderAfter_slot]

/-- What a call ships. -/
theorem callsShippedBy_eq (n : ℕ) :
    callsShippedBy consts maxCacheLogIndex script n = if slotOf maxCacheLogIndex n = 0 then
      (senderAfter consts maxCacheLogIndex script (n + 1)).calls maxCacheLogIndex else [] := by
  rw [callsShippedBy, shippedBatch_eq]
  split
  · rfl
  · rfl

/-- A call ships from slot `0` only. -/
theorem mem_callsShippedBy {n c : ℕ} :
    c ∈ callsShippedBy consts maxCacheLogIndex script n ↔ slotOf maxCacheLogIndex n = 0 ∧
      c ∈ (senderAfter consts maxCacheLogIndex script (n + 1)).calls maxCacheLogIndex := by
  rw [callsShippedBy_eq]
  split
  · next hslot => exact ⟨fun hc => ⟨hslot, hc⟩, fun hc => hc.2⟩
  · next hslot => exact ⟨fun hc => absurd hc List.not_mem_nil, fun hc => absurd hc.1 hslot⟩

/-- The calls shipped, by the call that shipped them. -/
theorem mem_shippedCalls {calls c : ℕ} :
    c ∈ shippedCalls consts maxCacheLogIndex script calls ↔
      ∃ n < calls, c ∈ callsShippedBy consts maxCacheLogIndex script n := by
  rw [shippedCalls, List.mem_flatMap]
  simp only [List.mem_range]

/-- A batch, by the slots of the calls. -/
theorem mem_batchCalls {n c : ℕ} : c ∈ batchCalls maxCacheLogIndex n ↔
    c < n + 1 ∧ ∀ c', c < c' → c' < n + 1 →
      slotOf maxCacheLogIndex c' ≠ slotOf maxCacheLogIndex c := by
  rw [batchCalls, List.mem_filter, List.mem_range, decide_eq_true_eq]
  exact and_congr_right fun _ =>
    ⟨fun h c' hlt hle => h c' hle hlt, fun h c' hle hlt => h c' hlt hle⟩

/-! ## Every call is shipped in time -/

/-- The slots go up one by one until a call falls on slot `0`. -/
theorem slotOf_succ (hmax : 1 ≤ maxCacheLogIndex.toNat) {n : ℕ}
    (h : slotOf maxCacheLogIndex (n + 1) ≠ 0) :
    slotOf maxCacheLogIndex (n + 1) = slotOf maxCacheLogIndex n + 1 := by
  have hcounter : (n + 1) % 2 ^ 64 = n % 2 ^ 64 + 1 := by
    by_contra hwraps
    refine h ?_
    rw [slotOf, show (n + 1) % 2 ^ 64 = 0 by omega, Nat.zero_mod]
  rw [slotOf, hcounter] at h ⊢
  have hlt := Nat.mod_lt (n % 2 ^ 64) hmax
  have hsplit : n % 2 ^ 64 + 1 = maxCacheLogIndex.toNat * (n % 2 ^ 64 / maxCacheLogIndex.toNat)
      + (n % 2 ^ 64 % maxCacheLogIndex.toNat + 1) := by
    rw [← Nat.add_assoc, Nat.div_add_mod]
  rw [hsplit, Nat.mul_add_mod] at h ⊢
  rcases Nat.lt_or_eq_of_le (Nat.succ_le_of_lt hlt) with hinside | hend
  · rw [Nat.mod_eq_of_lt hinside, slotOf]
  · rw [Nat.succ_eq_add_one] at hend
    rw [hend, Nat.mod_self] at h
    exact absurd rfl h

/-- Before call `n` ships, every call up to it has been in a batch. -/
theorem exists_ship (hmax : 1 ≤ maxCacheLogIndex.toNat) {n c : ℕ} (hc : c ≤ n)
    (hn : slotOf maxCacheLogIndex n = 0) :
    ∃ b ≤ n, c ≤ b ∧ slotOf maxCacheLogIndex b = 0 ∧ c ∈ batchCalls maxCacheLogIndex b := by
  -- the next call that falls on slot `0`
  have hexists : ∃ b, c ≤ b ∧ slotOf maxCacheLogIndex b = 0 := ⟨n, hc, hn⟩
  obtain ⟨hcb, hb⟩ := Nat.find_spec hexists
  have hfirst : ∀ x, c ≤ x → x < Nat.find hexists → slotOf maxCacheLogIndex x ≠ 0 :=
    fun x hx hlt h0 => Nat.find_min hexists hlt ⟨hx, h0⟩
  generalize Nat.find hexists = b at hcb hb hfirst
  have hup : ∀ d, c + d < b → slotOf maxCacheLogIndex (c + d) = slotOf maxCacheLogIndex c + d := by
    intro d
    induction d with
    | zero => exact fun _ => rfl
    | succ d ih =>
        intro hlt
        have hnext : slotOf maxCacheLogIndex (c + d + 1) = slotOf maxCacheLogIndex (c + d) + 1 :=
          slotOf_succ hmax (hfirst (c + d + 1) (by omega) hlt)
        rw [← Nat.add_assoc, hnext, ih (by omega), Nat.add_assoc]
  have hbn : b ≤ n := by
    by_contra hlate
    exact hfirst n hc (by omega) hn
  refine ⟨b, hbn, hcb, hb, mem_batchCalls.mpr ⟨by omega, fun c' hlt hle => ?_⟩⟩
  rcases Nat.lt_succ_iff_lt_or_eq.mp hle with hbefore | rfl
  · obtain ⟨d, rfl⟩ := Nat.exists_eq_add_of_le (Nat.le_of_lt hlt)
    rw [hup d hbefore]
    omega
  · rw [hb]
    exact (hfirst c (Nat.le_refl c) hlt).symm

end Slots

end TwigKV.CacheIndexLog
