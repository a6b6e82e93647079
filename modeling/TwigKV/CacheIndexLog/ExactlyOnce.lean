import TwigKV.CacheIndexLog.LogSender
import Mathlib.Data.List.Nodup
import Mathlib.Data.Nat.ModEq

/-! # Log shipping, entry by entry

One server makes `append_entry` calls, numbered from `0`. The flush comes at slot `0` and ships the
whole buffer; the sender never clears a `filled` flag. Which entries a batch carries therefore
depends on which calls wrote the slots last.

While the slots of the calls follow one another around the buffer, every entry is shipped once and
fewer than `max_cache_log_index` entries wait (`GoesAround.exactlyOnce`). The running index is a
64-bit counter: where it wraps, the slots go on around the buffer only if `max_cache_log_index`
divides `2 ^ 64`. So the shipping is exactly once for any number of calls, or up to `2 ^ 64` of them
(`exactlyOnce_iff`). -/

namespace TwigKV.CacheIndexLog

variable {RDMACacheIndex : Type*}

/-- **Log shipping is exactly once** over the first `calls` calls. -/
structure ExactlyOnce (consts : LogConstants RDMACacheIndex) (maxCacheLogIndex : UInt64)
    (script : AppendScript RDMACacheIndex) (calls : ℕ) : Prop where
  /-- The first batch carries entry `0`. -/
  first : 0 < calls → ∃ batch, shippedBatch consts maxCacheLogIndex script 0 = some batch ∧
    batch.Faithful maxCacheLogIndex script ∧ batch.calls maxCacheLogIndex = [0]
  /-- The batch of call `t * max_cache_log_index` carries the entries of the calls since the batch
  before it. -/
  later : ∀ t, 1 ≤ t → t * maxCacheLogIndex.toNat < calls →
    ∃ batch, shippedBatch consts maxCacheLogIndex script (t * maxCacheLogIndex.toNat) = some batch ∧
      batch.Faithful maxCacheLogIndex script ∧ (batch.calls maxCacheLogIndex).Perm
        (List.range' ((t - 1) * maxCacheLogIndex.toNat + 1) maxCacheLogIndex.toNat)
  /-- No entry is shipped twice. -/
  once : (shippedCalls consts maxCacheLogIndex script calls).Nodup
  /-- After any call fewer than `max_cache_log_index` entries wait. -/
  waiting : ∀ n ≤ calls, ((List.range n).filter fun c =>
    c ∉ shippedCalls consts maxCacheLogIndex script n).length < maxCacheLogIndex.toNat

/-! ## While the slots follow one another -/

section Regular

variable {consts : LogConstants RDMACacheIndex} {maxCacheLogIndex : UInt64}
  {script : AppendScript RDMACacheIndex} {calls : ℕ}

/-- The calls go around the buffer slot by slot. -/
def GoesAround (maxCacheLogIndex : UInt64) (calls : ℕ) : Prop :=
  ∀ n < calls, slotOf maxCacheLogIndex n = n % maxCacheLogIndex.toNat

/-- They do before the counter wraps. -/
theorem goesAround_of_le (h : calls ≤ 2 ^ 64) : GoesAround maxCacheLogIndex calls := by
  intro n hn
  rw [slotOf, Nat.mod_eq_of_lt (Nat.lt_of_lt_of_le hn h)]

/-- And forever if `max_cache_log_index` divides `2 ^ 64`. -/
theorem goesAround_of_dvd (h : maxCacheLogIndex.toNat ∣ 2 ^ 64) :
    GoesAround maxCacheLogIndex calls :=
  fun n _ => Nat.mod_mod_of_dvd n h

/-- Then a buffer carries the last `max_cache_log_index` calls. -/
theorem GoesAround.mem_calls (h : GoesAround maxCacheLogIndex calls)
    (hmax : 1 ≤ maxCacheLogIndex.toNat) {n c : ℕ} (hn : n ≤ calls) :
    c ∈ (senderAfter consts maxCacheLogIndex script n).calls maxCacheLogIndex ↔
      c < n ∧ n ≤ c + maxCacheLogIndex.toNat := by
  rw [mem_calls_senderAfter hmax]
  refine and_congr_right fun hc => ⟨fun hlast => ?_, fun hle c' hlt hlt' heq => ?_⟩
  · -- the call one round later falls on the same slot
    by_contra hlater
    refine hlast (c + maxCacheLogIndex.toNat) (by omega) (by omega) ?_
    rw [h _ (by omega), h _ (by omega), Nat.add_mod_right]
  · rw [h c' (by omega), h c (by omega)] at heq
    have hdvd : maxCacheLogIndex.toNat ∣ c' - c :=
      (Nat.modEq_iff_dvd' (Nat.le_of_lt hlt)).mp heq.symm
    have := Nat.le_of_dvd (by omega) hdvd
    omega

/-- The calls of the buffer that call `t * max_cache_log_index` ships. -/
theorem GoesAround.calls_perm (h : GoesAround maxCacheLogIndex calls)
    (hmax : 1 ≤ maxCacheLogIndex.toNat) {t start length : ℕ}
    (ht : t * maxCacheLogIndex.toNat < calls)
    (hrange : ∀ c, (start ≤ c ∧ c < start + length) ↔ c < t * maxCacheLogIndex.toNat + 1 ∧
      t * maxCacheLogIndex.toNat + 1 ≤ c + maxCacheLogIndex.toNat) :
    ((senderAfter consts maxCacheLogIndex script (t * maxCacheLogIndex.toNat + 1)).calls
      maxCacheLogIndex).Perm (List.range' start length) := by
  refine (List.perm_ext_iff_of_nodup (calls_senderAfter_nodup _) List.nodup_range').mpr fun c => ?_
  rw [h.mem_calls hmax ht, List.mem_range'_1, hrange c]

/-- The calls that ship are the multiples of `max_cache_log_index`. -/
theorem GoesAround.shippedBatch_mul (h : GoesAround maxCacheLogIndex calls) {t : ℕ}
    (ht : t * maxCacheLogIndex.toNat < calls) :
    shippedBatch consts maxCacheLogIndex script (t * maxCacheLogIndex.toNat)
      = some (senderAfter consts maxCacheLogIndex script (t * maxCacheLogIndex.toNat + 1)) := by
  rw [shippedBatch_eq, h _ ht, Nat.mul_mod_left, if_pos rfl]

/-- A call is shipped by the first multiple from it on. -/
theorem GoesAround.mem_shippedCalls (h : GoesAround maxCacheLogIndex calls)
    (hmax : 1 ≤ maxCacheLogIndex.toNat) {n c : ℕ} (hn : n ≤ calls) :
    c ∈ shippedCalls consts maxCacheLogIndex script n ↔ ∃ k < n,
      k % maxCacheLogIndex.toNat = 0 ∧ c ≤ k ∧ k < c + maxCacheLogIndex.toNat := by
  rw [CacheIndexLog.mem_shippedCalls]
  refine exists_congr fun k => and_congr_right fun hk => ?_
  rw [mem_callsShippedBy, h k (by omega), h.mem_calls hmax (by omega)]
  exact and_congr_right fun _ => ⟨fun hc => by omega, fun hc => by omega⟩

/-- No entry is shipped twice: two multiples are a round apart. -/
theorem GoesAround.shippedCalls_nodup (h : GoesAround maxCacheLogIndex calls)
    (hmax : 1 ≤ maxCacheLogIndex.toNat) :
    (shippedCalls consts maxCacheLogIndex script calls).Nodup := by
  rw [shippedCalls, List.nodup_flatMap]
  constructor
  · intro n _
    rw [callsShippedBy_eq]
    split
    · exact calls_senderAfter_nodup (n + 1)
    · exact List.nodup_nil
  · refine List.pairwise_lt_range.imp_of_mem fun {k k'} hk hk' hlt => ?_
    intro c hc hc'
    obtain ⟨hslot, hin⟩ := mem_callsShippedBy.mp hc
    obtain ⟨hslot', hin'⟩ := mem_callsShippedBy.mp hc'
    rw [h k (List.mem_range.mp hk)] at hslot
    rw [h k' (List.mem_range.mp hk')] at hslot'
    have hround := (h.mem_calls hmax (List.mem_range.mp hk)).mp hin
    have hround' := (h.mem_calls hmax (List.mem_range.mp hk')).mp hin'
    have hdvd : maxCacheLogIndex.toNat ∣ k' - k :=
      Nat.dvd_sub (Nat.dvd_of_mod_eq_zero hslot') (Nat.dvd_of_mod_eq_zero hslot)
    have := Nat.le_of_dvd (by omega) hdvd
    omega

/-- Fewer than `max_cache_log_index` entries wait: those since the last multiple. -/
theorem GoesAround.waiting (h : GoesAround maxCacheLogIndex calls)
    (hmax : 1 ≤ maxCacheLogIndex.toNat) {n : ℕ} (hn : n ≤ calls) :
    ((List.range n).filter fun c =>
      c ∉ shippedCalls consts maxCacheLogIndex script n).length < maxCacheLogIndex.toNat := by
  have hsub : ((List.range n).filter fun c => c ∉ shippedCalls consts maxCacheLogIndex script n)
      ⊆ List.range' (n + 1 - maxCacheLogIndex.toNat) (maxCacheLogIndex.toNat - 1) := by
    intro c hc
    obtain ⟨hcn, hwaits⟩ := List.mem_filter.mp hc
    rw [decide_eq_true_eq, h.mem_shippedCalls hmax hn] at hwaits
    rw [List.mem_range] at hcn
    rw [List.mem_range'_1]
    -- the first multiple from `c` on lies less than a round away
    have hdiv := Nat.div_add_mod (c + maxCacheLogIndex.toNat - 1) maxCacheLogIndex.toNat
    have hmod := Nat.mod_lt (c + maxCacheLogIndex.toNat - 1) hmax
    have hlate : n ≤ maxCacheLogIndex.toNat *
        ((c + maxCacheLogIndex.toNat - 1) / maxCacheLogIndex.toNat) := by
      by_contra hearly
      exact hwaits ⟨_, Nat.not_le.mp hearly, Nat.mul_mod_right _ _, by omega, by omega⟩
    omega
  have hnodup : ((List.range n).filter fun c =>
      c ∉ shippedCalls consts maxCacheLogIndex script n).Nodup := List.nodup_range.filter _
  have hle := (hnodup.subperm hsub).length_le
  rw [List.length_range'] at hle
  omega

/-- Slots that follow one another make the shipping exactly once. -/
theorem GoesAround.exactlyOnce (h : GoesAround maxCacheLogIndex calls)
    (hmax : 1 ≤ maxCacheLogIndex.toNat) :
    ExactlyOnce consts maxCacheLogIndex script calls := by
  constructor
  case first =>
    intro hcalls
    have hbatch := @GoesAround.shippedBatch_mul _ consts _ script _ h 0 (by omega)
    have hperm := @GoesAround.calls_perm _ consts _ script _ h hmax 0 0 1 (by omega)
      fun c => by omega
    rw [Nat.zero_mul] at hbatch hperm
    exact ⟨_, hbatch, senderAfter_faithful _, List.perm_singleton.mp hperm⟩
  case later =>
    intro t ht hcalls
    refine ⟨_, h.shippedBatch_mul hcalls, senderAfter_faithful _, h.calls_perm hmax hcalls ?_⟩
    intro c
    obtain ⟨t, rfl⟩ := Nat.exists_eq_add_of_le' ht
    rw [Nat.add_sub_cancel, Nat.succ_mul]
    omega
  case once => exact h.shippedCalls_nodup hmax
  case waiting => exact fun n hn => h.waiting hmax hn

end Regular

/-! ## When the counter wraps -/

section Wrap

variable {consts : LogConstants RDMACacheIndex} {maxCacheLogIndex : UInt64}
  {script : AppendScript RDMACacheIndex} {calls : ℕ}

/-- A call shipped by two calls is shipped twice. -/
theorem not_shippedCalls_nodup {k k' c : ℕ} (hk : k < calls) (hk' : k' < calls) (hne : k ≠ k')
    (hc : c ∈ callsShippedBy consts maxCacheLogIndex script k)
    (hc' : c ∈ callsShippedBy consts maxCacheLogIndex script k') :
    ¬ (shippedCalls consts maxCacheLogIndex script calls).Nodup := by
  intro hnodup
  rw [shippedCalls, List.nodup_flatMap] at hnodup
  have hsymm : Std.Symm (Function.onFun List.Disjoint
      (callsShippedBy consts maxCacheLogIndex script)) := ⟨fun _ _ h => h.symm⟩
  exact hnodup.2.forall (List.mem_range.mpr hk) (List.mem_range.mpr hk') hne hc hc'

/-- Where `max_cache_log_index` does not divide `2 ^ 64`, call number `2 ^ 64` falls on slot `0` out
of turn and ships the entry of call `2 ^ 64 - max_cache_log_index` again. -/
theorem not_shippedCalls_nodup_of_wrap (hmax : 1 ≤ maxCacheLogIndex.toNat)
    (hdvd : ¬ maxCacheLogIndex.toNat ∣ 2 ^ 64) (hcalls : 2 ^ 64 < calls) :
    ¬ (shippedCalls consts maxCacheLogIndex script calls).Nodup := by
  have hlt := maxCacheLogIndex.toNat_lt
  have hslot : ∀ n < 2 ^ 64, slotOf maxCacheLogIndex n = n % maxCacheLogIndex.toNat :=
    fun n hn => by
    rw [slotOf, Nat.mod_eq_of_lt hn]
  have hwrap : slotOf maxCacheLogIndex (2 ^ 64) = 0 := by
    rw [slotOf, Nat.mod_self, Nat.zero_mod]
  have hrest : 0 < 2 ^ 64 % maxCacheLogIndex.toNat :=
    Nat.pos_of_ne_zero fun h0 => hdvd (Nat.dvd_of_mod_eq_zero h0)
  have hdiv := Nat.div_add_mod (2 ^ 64) maxCacheLogIndex.toNat
  have hmod := Nat.mod_lt (2 ^ 64) hmax
  have hold : (2 ^ 64 - maxCacheLogIndex.toNat) % maxCacheLogIndex.toNat
      = 2 ^ 64 % maxCacheLogIndex.toNat := by
    rw [← Nat.add_mod_right, Nat.sub_add_cancel (Nat.le_of_lt hlt)]
  -- the last multiple before the wrap ships the entry in turn
  have hturn : 2 ^ 64 - maxCacheLogIndex.toNat ∈ callsShippedBy consts maxCacheLogIndex script
      (maxCacheLogIndex.toNat * (2 ^ 64 / maxCacheLogIndex.toNat)) := by
    have haround : GoesAround maxCacheLogIndex (2 ^ 64) := goesAround_of_le (Nat.le_refl _)
    rw [mem_callsShippedBy, hslot _ (by omega), Nat.mul_mod_right,
      haround.mem_calls hmax (by omega)]
    omega
  -- at the wrap its slot still holds it
  have hagain : 2 ^ 64 - maxCacheLogIndex.toNat
      ∈ callsShippedBy consts maxCacheLogIndex script (2 ^ 64) := by
    rw [mem_callsShippedBy, hwrap, mem_calls_senderAfter hmax]
    have hsame : slotOf maxCacheLogIndex (2 ^ 64 - maxCacheLogIndex.toNat)
        = 2 ^ 64 % maxCacheLogIndex.toNat := by rw [hslot _ (by omega), hold]
    refine ⟨rfl, by omega, fun c' hlt' hle heq => ?_⟩
    rw [hsame] at heq
    rcases Nat.lt_succ_iff_lt_or_eq.mp hle with hbefore | rfl
    · rw [hslot c' hbefore, ← hold] at heq
      have hdvd' : maxCacheLogIndex.toNat ∣ c' - (2 ^ 64 - maxCacheLogIndex.toNat) :=
        (Nat.modEq_iff_dvd' (Nat.le_of_lt hlt')).mp heq.symm
      have := Nat.le_of_dvd (by omega) hdvd'
      omega
    · rw [hwrap] at heq
      omega
  exact not_shippedCalls_nodup (by omega) hcalls (by omega) hturn hagain

end Wrap

/-! ## The result -/

/-- **When log shipping is exactly once.** For every log size, every number of calls and whatever is
appended, every entry is shipped once, in its batch, and fewer than `max_cache_log_index` entries
wait, exactly when the 64-bit counter of calls does not wrap in between or wraps at a multiple of
`max_cache_log_index`. -/
theorem exactlyOnce_iff {maxCacheLogIndex : UInt64} (hmax : 1 ≤ maxCacheLogIndex)
    (consts : LogConstants RDMACacheIndex) (script : AppendScript RDMACacheIndex) (calls : ℕ) :
    ExactlyOnce consts maxCacheLogIndex script calls ↔
      calls ≤ 2 ^ 64 ∨ maxCacheLogIndex.toNat ∣ 2 ^ 64 := by
  have hmax' : 1 ≤ maxCacheLogIndex.toNat := UInt64.le_iff_toNat_le.mp hmax
  constructor
  · intro h
    by_contra hwrap
    rw [not_or, Nat.not_le] at hwrap
    exact not_shippedCalls_nodup_of_wrap hmax' hwrap.2 hwrap.1 h.once
  · rintro (hle | hdvd)
    · exact (goesAround_of_le hle).exactlyOnce hmax'
    · exact (goesAround_of_dvd hdvd).exactlyOnce hmax'

/-- A script for the runs below. -/
def equalEntries : AppendScript UInt64 := ⟨fun _ => ⟨5, 10, false⟩, fun _ => ⟨5, 10, false⟩⟩

/-- A thousand calls on a log of three slots. -/
theorem exactlyOnce_thousand_calls :
    (1 : UInt64) ≤ 3 ∧ ExactlyOnce ⟨-1, -1⟩ 3 equalEntries 1000 :=
  ⟨by decide, (exactlyOnce_iff (by decide) _ _ _).mpr (Or.inl (by decide))⟩

/-- On a log of three slots call number `2 ^ 64` ships an entry again. -/
theorem wrap_ships_twice : ¬ ExactlyOnce ⟨-1, -1⟩ 3 equalEntries (2 ^ 64 + 1) := by
  intro h
  exact not_shippedCalls_nodup_of_wrap (by decide) (by decide) (by decide) h.once

end TwigKV.CacheIndexLog
