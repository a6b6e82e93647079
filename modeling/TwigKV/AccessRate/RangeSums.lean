import TwigKV.AccessRate.CdfContents
import Mathlib.Tactic.Abel
import Mathlib.Tactic.Ring

/-! # Sums over ranges of the cdf

`get_sum_freq_till_index` was a loop over the positions from `start` up to `end`, which is kept in a
comment. It now subtracts two sums of the companion map, each of which includes the frequency at its
own position, and reads the last position for any index from the end on. It therefore adds the
frequency at `end` and leaves out the one at `start`
(`getSumFreqTillIndex_add_elementAt`), and it is the loop exactly when the two are equal
(`getSumFreqTillIndex_eq_loop_iff`).

`calculate_performance` charges three such ranges. Together they leave out the frequency of the
first entry, and the two thirds and the third of the remote range lose an access unless it is
divisible by three (`everyAccessCharged_iff`). -/

namespace TwigKV.AccessRate

/-! ## One range -/

/-- The loop that `get_sum_freq_till_index` keeps in a comment. -/
def loopSumFreq (cdf : CDFType) (start stop : ℕ) : UInt64 :=
  ((cdf.sortedKeyFreqs.take stop).drop start).foldl (fun sum e => sum + e.freq) 0

/-- The loop adds the frequencies of the range. -/
theorem prefixSum_add_loopSumFreq (cdf : CDFType) {start stop : ℕ} (h : start ≤ stop) :
    prefixSum cdf.freqs start + loopSumFreq cdf start stop = prefixSum cdf.freqs stop := by
  have hloop : loopSumFreq cdf start stop = ((cdf.freqs.take stop).drop start).sum := by
    rw [loopSumFreq, CDFType.freqs, ← List.map_take, ← List.map_drop, List.sum_eq_foldl,
      List.foldl_map]
  rw [hloop, prefixSum_add_sum_range _ h]

section Range

variable {keyFreq : List (String × UInt64)} {totalKeys : UInt64} {cdf : CDFType}

/-- The sum that is read for an index includes the frequency there. -/
theorem prefixSumAt_clampIndex (hnodup : (keyFreq.map Prod.fst).Nodup)
    (hrun : getAndSortFreq keyFreq totalKeys = some cdf) (hne : cdf.sortedKeyFreqs ≠ []) (i : ℕ) :
    prefixSumAt cdf (clampIndex cdf i) = prefixSum cdf.freqs (i + 1) := by
  have hlen : 0 < cdf.sortedKeyFreqs.length := List.length_pos_of_ne_nil hne
  have hfreqs : cdf.freqs.length = cdf.sortedKeyFreqs.length := List.length_map _
  rw [clampIndex]
  by_cases hi : cdf.sortedKeyFreqs.length ≤ i
  · -- from the end on the last position is read, and all frequencies are counted
    rw [if_pos hi, prefixSumAt_of_getAndSortFreq hnodup hrun (by omega),
      prefixSum_of_length_le (by omega), prefixSum_of_length_le (by omega)]
  · rw [if_neg hi, prefixSumAt_of_getAndSortFreq hnodup hrun (by omega)]

/-- The range sum of the code and the loop differ by the frequencies at the two ends. -/
theorem getSumFreqTillIndex_add_elementAt (hnodup : (keyFreq.map Prod.fst).Nodup)
    (hrun : getAndSortFreq keyFreq totalKeys = some cdf) (hne : cdf.sortedKeyFreqs ≠ [])
    {start stop : ℕ} (h : start ≤ stop) :
    getSumFreqTillIndex cdf start stop + elementAt cdf.freqs start
      = loopSumFreq cdf start stop + elementAt cdf.freqs stop := by
  have hloop := prefixSum_add_loopSumFreq cdf h
  rw [getSumFreqTillIndex, prefixSumAt_clampIndex hnodup hrun hne,
    prefixSumAt_clampIndex hnodup hrun hne, prefixSum_succ, prefixSum_succ, ← hloop]
  abel

end Range

/-! ## The result for one range -/

section Range

variable {keyFreq : List (String × UInt64)} {totalKeys : UInt64} {cdf : CDFType}

/-- **When the fast range sum is the loop.** For every non-empty cdf of a vector with distinct keys
and every range of positions, `get_sum_freq_till_index` returns the sum of the frequencies from
`start` up to `stop` exactly when the entries at the two ends have the same frequency, which is `0`
at the end of the list. -/
theorem getSumFreqTillIndex_eq_loop_iff (hnodup : (keyFreq.map Prod.fst).Nodup)
    (hrun : getAndSortFreq keyFreq totalKeys = some cdf) (hne : cdf.sortedKeyFreqs ≠ [])
    {start stop : ℕ} (h : start ≤ stop) :
    getSumFreqTillIndex cdf start stop = loopSumFreq cdf start stop ↔
      elementAt cdf.freqs start = elementAt cdf.freqs stop := by
  have hends := getSumFreqTillIndex_add_elementAt hnodup hrun hne h
  constructor
  · intro heq
    rw [heq] at hends
    exact add_left_cancel hends
  · intro heq
    rw [heq] at hends
    exact add_right_cancel hends

end Range

/-- A range from the key with three accesses to itself. -/
theorem getSumFreqTillIndex_eq_loop_iff_empty_range : ∃ cdf,
    getAndSortFreq [("1", 3), ("2", 1)] 2 = some cdf ∧
      getSumFreqTillIndex cdf 0 0 = loopSumFreq cdf 0 0 := by
  obtain ⟨cdf, hrun, hlist⟩ := exists_cdf_three_and_one
  have hne : cdf.sortedKeyFreqs ≠ [] := by rw [hlist]; decide
  exact ⟨cdf, hrun, (getSumFreqTillIndex_eq_loop_iff (by decide) hrun hne (Nat.le_refl 0)).mpr rfl⟩

/-- Of the four accesses to both keys the range sum finds one. -/
theorem range_sum_skips_first : ∃ cdf,
    getAndSortFreq [("1", 3), ("2", 1)] 2 = some cdf ∧ cdf.sortedKeyFreqs.length = 2 ∧
      getSumFreqTillIndex cdf 0 2 = 1 ∧ loopSumFreq cdf 0 2 = 4 := by
  obtain ⟨cdf, hrun, hlist⟩ := exists_cdf_three_and_one
  have hne : cdf.sortedKeyFreqs ≠ [] := by rw [hlist]; decide
  refine ⟨cdf, hrun, by rw [hlist]; rfl, ?_, ?_⟩
  · rw [getSumFreqTillIndex, prefixSumAt_clampIndex (by decide) hrun hne,
      prefixSumAt_clampIndex (by decide) hrun hne, CDFType.freqs, hlist]
    decide
  · rw [loopSumFreq, hlist]
    decide

/-! ## The ranges of `calculate_performance` -/

/-- The accesses that `calculate_performance` charges. -/
structure AccessCharges where
  /-- At `cache_ns_avg`, for local keys. -/
  localAccesses : UInt64
  /-- At `rdma_ns_avg`: two thirds of the remote accesses. -/
  rdmaAccesses : UInt64
  /-- At `cache_ns_avg`: one third of the remote accesses. -/
  remoteCacheAccesses : UInt64
  /-- At `disk_ns_avg`. -/
  diskAccesses : UInt64
deriving DecidableEq, Repr

/-- The accesses charged for a pair of water marks. An empty cdf has no last position to read, and
the range sums access the list outside. -/
def accessCharges (cdf : CDFType) (waterMarkLocal waterMarkRemote : UInt64) :
    Option AccessCharges :=
  let totalKeys := cdf.sortedKeyFreqs.length
  let totalRemoteAccesses :=
    getSumFreqTillIndex cdf waterMarkLocal.toNat (waterMarkLocal + waterMarkRemote).toNat
  if totalKeys = 0 then none
  else some
    { localAccesses := getSumFreqTillIndex cdf 0 waterMarkLocal.toNat
      rdmaAccesses := 2 * totalRemoteAccesses / 3
      remoteCacheAccesses := totalRemoteAccesses / 3
      diskAccesses := getSumFreqTillIndex cdf (waterMarkRemote + waterMarkLocal).toNat totalKeys }

namespace AccessCharges

/-- The latency they add up to. -/
def latency (charges : AccessCharges) (ns : Latencies) : UInt64 :=
  charges.localAccesses * ns.cacheNsAvg +
    (charges.rdmaAccesses * ns.rdmaNsAvg + charges.remoteCacheAccesses * ns.cacheNsAvg) +
    charges.diskAccesses * ns.diskNsAvg

/-- Their number. -/
def total (charges : AccessCharges) : ℕ :=
  charges.localAccesses.toNat + charges.rdmaAccesses.toNat + charges.remoteCacheAccesses.toNat +
    charges.diskAccesses.toNat

end AccessCharges

/-- The accesses that a cdf counts. -/
def totalAccesses (cdf : CDFType) : ℕ := (cdf.freqs.map UInt64.toNat).sum

/-- **Every access is charged once**: the latency of `calculate_performance` charges as many
accesses as the cdf counts. -/
def EveryAccessCharged (cdf : CDFType) (waterMarkLocal waterMarkRemote : UInt64)
    (ns : Latencies) : Prop :=
  ∃ charges, accessCharges cdf waterMarkLocal waterMarkRemote = some charges ∧
    totalLatency cdf waterMarkLocal waterMarkRemote ns = charges.latency ns ∧
    charges.total = totalAccesses cdf

/-- The accesses to the keys after the local ones that the remote range sum finds: those at
positions `waterMarkLocal + 1` up to `waterMarkLocal + waterMarkRemote`. -/
def accessesAfter (cdf : CDFType) (waterMarkLocal waterMarkRemote : ℕ) : ℕ :=
  prefixSum (cdf.freqs.map UInt64.toNat) (waterMarkLocal + waterMarkRemote + 1) -
    prefixSum (cdf.freqs.map UInt64.toNat) (waterMarkLocal + 1)

/-! ### Sums that do not wrap -/

section Charges

variable {keyFreq : List (String × UInt64)} {totalKeys : UInt64} {cdf : CDFType}

/-- Prefix sums of frequencies do not wrap where the total does not. -/
theorem toNat_prefixSum_freqs (hfit : totalAccesses cdf < 2 ^ 64) (i : ℕ) :
    (prefixSum cdf.freqs i).toNat = prefixSum (cdf.freqs.map UInt64.toNat) i := by
  have hle := prefixSum_le_sum (cdf.freqs.map UInt64.toNat) i
  rw [prefixSum, ← List.map_take] at hle
  have hsum := toNat_sum_map_of_lt id (cdf.freqs.take i) (lt_of_le_of_lt hle hfit)
  rw [List.map_id] at hsum
  rw [prefixSum, prefixSum, ← List.map_take]
  exact hsum

/-- A range sum that does not wrap. -/
theorem toNat_rangeSum (hnodup : (keyFreq.map Prod.fst).Nodup)
    (hrun : getAndSortFreq keyFreq totalKeys = some cdf) (hne : cdf.sortedKeyFreqs ≠ [])
    (hfit : totalAccesses cdf < 2 ^ 64) {start stop : ℕ}
    (hle : prefixSum (cdf.freqs.map UInt64.toNat) (start + 1)
      ≤ prefixSum (cdf.freqs.map UInt64.toNat) (stop + 1)) :
    (getSumFreqTillIndex cdf start stop).toNat
      = prefixSum (cdf.freqs.map UInt64.toNat) (stop + 1) -
        prefixSum (cdf.freqs.map UInt64.toNat) (start + 1) := by
  rw [getSumFreqTillIndex, prefixSumAt_clampIndex hnodup hrun hne,
    prefixSumAt_clampIndex hnodup hrun hne, UInt64.toNat_sub_of_le, toNat_prefixSum_freqs hfit,
    toNat_prefixSum_freqs hfit]
  rw [UInt64.le_iff_toNat_le, toNat_prefixSum_freqs hfit, toNat_prefixSum_freqs hfit]
  exact hle

/-- Two thirds and a third, each rounded down, make up a number that three divides. -/
theorem two_thirds_add_third (n : ℕ) :
    2 * n / 3 + n / 3 + (if 3 ∣ n then 0 else 1) = n := by
  split_ifs with h
  · omega
  · omega

/-- The first prefix sum is the frequency of the first entry. -/
theorem prefixSum_freqs_one :
    prefixSum (cdf.freqs.map UInt64.toNat) 1 = (elementAt cdf.freqs 0).toNat := by
  rw [prefixSum_succ, prefixSum_zero, Nat.zero_add]
  cases cdf.freqs with
  | nil => rfl
  | cons freq freqs => rfl

/-- The accesses charged fall short of the total by those to the first key, and by one where the
remote accesses do not divide into thirds. -/
theorem total_accessCharges (hnodup : (keyFreq.map Prod.fst).Nodup)
    (hrun : getAndSortFreq keyFreq totalKeys = some cdf)
    {waterMarkLocal waterMarkRemote : UInt64} {charges : AccessCharges}
    (hmarks : waterMarkLocal.toNat + waterMarkRemote.toNat < 2 ^ 64)
    (hfit : 2 * totalAccesses cdf < 2 ^ 64)
    (hcharges : accessCharges cdf waterMarkLocal waterMarkRemote = some charges) :
    charges.total + (elementAt cdf.freqs 0).toNat +
      (if 3 ∣ accessesAfter cdf waterMarkLocal.toNat waterMarkRemote.toNat then 0 else 1)
      = totalAccesses cdf := by
  rw [accessCharges] at hcharges
  split at hcharges
  · cases hcharges
  next hlen =>
  rw [Option.some.injEq] at hcharges
  subst hcharges
  have hne : cdf.sortedKeyFreqs ≠ [] := fun hnil => hlen (by rw [hnil]; rfl)
  have hmark : (waterMarkLocal + waterMarkRemote).toNat
      = waterMarkLocal.toNat + waterMarkRemote.toNat := toNat_add_of_lt hmarks
  have hmark' : (waterMarkRemote + waterMarkLocal).toNat
      = waterMarkLocal.toNat + waterMarkRemote.toNat := by rw [add_comm, hmark]
  have hfit' : totalAccesses cdf < 2 ^ 64 := by omega
  -- the four sums at the ends of the ranges
  have hall : prefixSum (cdf.freqs.map UInt64.toNat) (cdf.sortedKeyFreqs.length + 1)
      = totalAccesses cdf :=
    prefixSum_of_length_le (by rw [List.length_map, CDFType.freqs, List.length_map]; omega)
  have hfirst := prefixSum_mono (cdf.freqs.map UInt64.toNat)
    (Nat.add_le_add_right (Nat.zero_le waterMarkLocal.toNat) 1)
  have hsecond := prefixSum_mono (cdf.freqs.map UInt64.toNat) (Nat.add_le_add_right
    (Nat.le_add_right waterMarkLocal.toNat waterMarkRemote.toNat) 1)
  have hthird : prefixSum (cdf.freqs.map UInt64.toNat)
      (waterMarkLocal.toNat + waterMarkRemote.toNat + 1) ≤ totalAccesses cdf :=
    prefixSum_le_sum _ _
  -- and the ranges between them
  have hlocal := toNat_rangeSum hnodup hrun hne hfit' hfirst
  have hremote := toNat_rangeSum hnodup hrun hne hfit' hsecond
  have hdisk := toNat_rangeSum hnodup hrun hne hfit' (hthird.trans_eq hall.symm)
  have hdouble : (2 * getSumFreqTillIndex cdf waterMarkLocal.toNat
        (waterMarkLocal.toNat + waterMarkRemote.toNat)).toNat
      = 2 * accessesAfter cdf waterMarkLocal.toNat waterMarkRemote.toNat := by
    have htwo : (2 : UInt64).toNat = 2 := rfl
    rw [toNat_mul_of_lt (by rw [htwo, hremote]; omega), htwo, hremote, accessesAfter]
  have hthirds := two_thirds_add_third
    (accessesAfter cdf waterMarkLocal.toNat waterMarkRemote.toNat)
  have hthree : (3 : UInt64).toNat = 3 := rfl
  simp only [AccessCharges.total, hmark, hmark', UInt64.toNat_div, hdouble, hlocal, hremote, hdisk,
    hthree, hall, ← prefixSum_freqs_one, Nat.zero_add] at hfirst ⊢
  rw [← accessesAfter]
  have hbetween : accessesAfter cdf waterMarkLocal.toNat waterMarkRemote.toNat
      = prefixSum (cdf.freqs.map UInt64.toNat)
          (waterMarkLocal.toNat + waterMarkRemote.toNat + 1) -
        prefixSum (cdf.freqs.map UInt64.toNat) (waterMarkLocal.toNat + 1) := rfl
  omega

/-- **When every access is charged.** For every cdf of a vector with distinct keys, all water marks
and all latencies, as long as the sum of the water marks and twice the accesses fit 64 bits, the
accesses charged add up to the accesses counted exactly when the cdf has an entry, nobody accessed
the key of the first one, and three divides the accesses to the keys after the local ones. -/
theorem everyAccessCharged_iff (hnodup : (keyFreq.map Prod.fst).Nodup)
    (hrun : getAndSortFreq keyFreq totalKeys = some cdf) {waterMarkLocal waterMarkRemote : UInt64}
    (hmarks : waterMarkLocal.toNat + waterMarkRemote.toNat < 2 ^ 64)
    (hfit : 2 * totalAccesses cdf < 2 ^ 64) (ns : Latencies) :
    EveryAccessCharged cdf waterMarkLocal waterMarkRemote ns ↔
      cdf.sortedKeyFreqs ≠ [] ∧ elementAt cdf.freqs 0 = 0 ∧
        3 ∣ accessesAfter cdf waterMarkLocal.toNat waterMarkRemote.toNat := by
  constructor
  · rintro ⟨charges, hcharges, -, htotal⟩
    have hshort := total_accessCharges hnodup hrun hmarks hfit hcharges
    rw [htotal] at hshort
    refine ⟨fun hnil => ?_, UInt64.toNat_inj.mp ?_, ?_⟩
    · rw [accessCharges, hnil] at hcharges
      cases hcharges
    · rw [UInt64.toNat_zero]
      omega
    · by_contra hthird
      rw [if_neg hthird] at hshort
      omega
  · rintro ⟨hne, hfirst, hthird⟩
    have hlen : cdf.sortedKeyFreqs.length ≠ 0 := fun h0 => hne (List.length_eq_zero_iff.mp h0)
    obtain ⟨charges, hcharges⟩ : ∃ charges,
        accessCharges cdf waterMarkLocal waterMarkRemote = some charges :=
      ⟨_, if_neg hlen⟩
    have hshort := total_accessCharges hnodup hrun hmarks hfit hcharges
    rw [hfirst, if_pos hthird, UInt64.toNat_zero] at hshort
    refine ⟨charges, hcharges, ?_, hshort⟩
    rw [accessCharges, if_neg hlen, Option.some.injEq] at hcharges
    rw [← hcharges]
    rfl

end Charges

/-- All three accesses go to the second entry, which is the one remote key. -/
theorem everyAccessCharged_iff_remote_key : ∃ cdf, getAndSortFreq [("1", 3)] 2 = some cdf ∧
    EveryAccessCharged cdf 0 1 ⟨100, 10000, 1000⟩ := by
  obtain ⟨cdf, hrun, hlist⟩ := exists_cdf_three_and_none
  refine ⟨cdf, hrun, (everyAccessCharged_iff (by decide) hrun (by decide) ?_ _).mpr ⟨?_, ?_, ?_⟩⟩
  · rw [totalAccesses, CDFType.freqs, hlist]
    decide
  · rw [hlist]
    decide
  · rw [CDFType.freqs, hlist]
    decide
  · rw [accessesAfter, CDFType.freqs, hlist]
    decide

/-- With one local and one remote key, one of the four accesses is charged nowhere in full. -/
theorem first_key_not_charged : ∃ cdf, getAndSortFreq [("1", 3), ("2", 1)] 2 = some cdf ∧
    totalAccesses cdf = 4 ∧ ¬ EveryAccessCharged cdf 1 1 ⟨100, 10000, 1000⟩ := by
  obtain ⟨cdf, hrun, hlist⟩ := exists_cdf_three_and_one
  have htotal : totalAccesses cdf = 4 := by
    rw [totalAccesses, CDFType.freqs, hlist]
    decide
  refine ⟨cdf, hrun, htotal, ?_⟩
  rintro ⟨charges, hcharges, -, hall⟩
  have hshort := total_accessCharges (by decide) hrun (by decide) (by rw [htotal]; decide) hcharges
  rw [hall, CDFType.freqs, hlist] at hshort
  have hfirst : (elementAt ([⟨3, "1", 75⟩, ⟨1, "2", 100⟩].map CdfEntry.freq) 0).toNat = 3 := by
    decide
  rw [hfirst] at hshort
  omega

end TwigKV.AccessRate
