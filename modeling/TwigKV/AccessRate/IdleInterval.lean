import TwigKV.AccessRate.CdfContents

/-! # Percentiles of an idle interval

`access_rate_thread` clears the frequencies just before it calls `get_and_sort_freq`, and an
interval may pass without an access. The vector is then empty, or all its frequencies are `0`. The
keys of the data set are filled in all the same, so the percentile loop runs, and its first round
divides by the total frequency (`getAndSortFreq_of_idle`).

The list is complete exactly when that total, a 64-bit sum, is not `0`, every key of the vector fits
`int` and `key_map` has an element for every key (`listsEveryKey_iff`). -/

namespace TwigKV.AccessRate

variable {keyFreq : List (String × UInt64)} {totalKeys : UInt64}

/-- **The percentiles are computed**: `get_and_sort_freq` returns, and its list holds every key of
`1..totalKeys` once. -/
def ListsEveryKey (keyFreq : List (String × UInt64)) (totalKeys : UInt64) : Prop :=
  ∃ cdf, getAndSortFreq keyFreq totalKeys = some cdf ∧
    (cdf.sortedKeyFreqs.map CdfEntry.key).Perm ((List.range' 1 totalKeys.toNat).map toString)

/-! ## The total frequency -/

/-- The divisor is the sum of the vector's frequencies, modulo `2 ^ 64`. -/
theorem Completes.toNat_totalFreqOf_mod {sortedKeyFreq : List (UInt64 × String)}
    (hc : Completes keyFreq totalKeys sortedKeyFreq) :
    (totalFreqOf sortedKeyFreq).toNat = (keyFreq.map fun kf => kf.2.toNat).sum % 2 ^ 64 := by
  rw [totalFreqOf, toNat_foldl_add_mod Prod.fst sortedKeyFreq 0, hc.total, UInt64.toNat_zero,
    Nat.zero_add]

/-- It is `0` when `2 ^ 64` divides that sum. -/
theorem Completes.totalFreqOf_eq_zero_iff {sortedKeyFreq : List (UInt64 × String)}
    (hc : Completes keyFreq totalKeys sortedKeyFreq) :
    totalFreqOf sortedKeyFreq = 0 ↔ 2 ^ 64 ∣ (keyFreq.map fun kf => kf.2.toNat).sum := by
  rw [← UInt64.toNat_inj, hc.toNat_totalFreqOf_mod, UInt64.toNat_zero, Nat.dvd_iff_mod_eq_zero]

/-- Without a total there is no percentile: the list of a data set with a key is not empty, and its
first entry divides. -/
theorem Completes.getAndSortFreq_eq_none {sortedKeyFreq : List (UInt64 × String)}
    (hc : Completes keyFreq totalKeys sortedKeyFreq) (hN : 1 ≤ totalKeys)
    (hrun : completeKeyFreq keyFreq totalKeys = some sortedKeyFreq)
    (hzero : totalFreqOf sortedKeyFreq = 0) : getAndSortFreq keyFreq totalKeys = none := by
  rw [getAndSortFreq, hrun, Option.bind_some]
  exact if_pos ⟨hzero, hc.ne_nil hN⟩

/-- With a total the list holds every key. -/
theorem Completes.listsEveryKey {sortedKeyFreq : List (UInt64 × String)}
    (hc : Completes keyFreq totalKeys sortedKeyFreq)
    (hrun : completeKeyFreq keyFreq totalKeys = some sortedKeyFreq)
    (hpos : totalFreqOf sortedKeyFreq ≠ 0) : ListsEveryKey keyFreq totalKeys := by
  refine ⟨_, getAndSortFreq_eq_publication hrun hpos hc.stoull_isSome, ?_⟩
  rw [sortedKeyFreqs_publication, List.map_map]
  exact hc.publication_keys

/-- **An interval without accesses divides by zero.** -/
theorem getAndSortFreq_of_idle (hN : 1 ≤ totalKeys) (h : HasDataSetKeys keyFreq totalKeys)
    (hidle : ∀ kf ∈ keyFreq, kf.2 = 0) : getAndSortFreq keyFreq totalKeys = none := by
  cases hrun : completeKeyFreq keyFreq totalKeys with
  | none => rw [getAndSortFreq, hrun, Option.bind_none]
  | some sortedKeyFreq =>
      obtain ⟨-, hc⟩ := h.of_completeKeyFreq_eq_some hrun
      have hsum : (keyFreq.map fun kf => kf.2.toNat).sum = 0 :=
        List.sum_eq_zero fun n hn => by
          obtain ⟨kf, hkf, rfl⟩ := List.mem_map.mp hn
          rw [hidle kf hkf, UInt64.toNat_zero]
      refine hc.getAndSortFreq_eq_none hN hrun (hc.totalFreqOf_eq_zero_iff.mpr ?_)
      rw [hsum]
      exact Nat.dvd_zero _

/-! ## The result -/

/-- **When the percentiles are computed.** For every data set and every vector of distinct keys of
it, whatever their frequencies, `get_and_sort_freq` returns a list with every key once exactly when
the 64-bit sum of the frequencies is not `0`, `std::stoi` can read the keys of the vector and
`total_keys + 1` does not wrap. -/
theorem listsEveryKey_iff (hN : 1 ≤ totalKeys) (h : HasDataSetKeys keyFreq totalKeys) :
    ListsEveryKey keyFreq totalKeys ↔
      ¬ 2 ^ 64 ∣ (keyFreq.map fun kf => kf.2.toNat).sum ∧
        (∀ k : ℕ, toString k ∈ keyFreq.map Prod.fst → k < 2 ^ 31) ∧ totalKeys + 1 ≠ 0 := by
  constructor
  · rintro ⟨cdf, hrun, -⟩
    obtain ⟨sortedKeyFreq, hcomplete, -⟩ := exists_publication_of_getAndSortFreq hrun
    obtain ⟨hbounds, hc⟩ := h.of_completeKeyFreq_eq_some hcomplete
    refine ⟨fun hdvd => ?_, hbounds⟩
    rw [hc.getAndSortFreq_eq_none hN hcomplete (hc.totalFreqOf_eq_zero_iff.mpr hdvd)] at hrun
    cases hrun
  · rintro ⟨hdvd, hint, hwrap⟩
    obtain ⟨sortedKeyFreq, hrun, hc⟩ := completeKeyFreq_eq_some h hwrap hint
    exact hc.listsEveryKey hrun fun hzero => hdvd (hc.totalFreqOf_eq_zero_iff.mp hzero)

/-- One access to the second of two keys. -/
theorem listsEveryKey_iff_one_access : ListsEveryKey [(toString 2, 1)] 2 := by
  have hkeys : HasDataSetKeys [(toString 2, 1)] 2 := by
    constructor
    case canonical =>
      intro kf hkf
      rw [List.mem_singleton.mp hkf]
      exact ⟨2, by decide, by decide, rfl⟩
    case nodup => exact List.nodup_singleton _
  refine (listsEveryKey_iff (by decide) hkeys).mpr ⟨by decide, fun k hk => ?_, by decide⟩
  rw [toString_injective (List.mem_singleton.mp hk)]
  decide

/-- A data set of one key whose frequencies were just cleared. -/
theorem cleared_frequencies_divide_by_zero :
    HasDataSetKeys [] 1 ∧ getAndSortFreq [] 1 = none ∧ ¬ ListsEveryKey [] 1 := by
  have hkeys : HasDataSetKeys [] 1 := ⟨fun kf hkf => absurd hkf List.not_mem_nil, List.nodup_nil⟩
  have hnone : getAndSortFreq [] 1 = none :=
    getAndSortFreq_of_idle (by decide) hkeys fun kf hkf => absurd hkf List.not_mem_nil
  refine ⟨hkeys, hnone, ?_⟩
  rintro ⟨cdf, hrun, -⟩
  rw [hnone] at hrun
  cases hrun

end TwigKV.AccessRate
