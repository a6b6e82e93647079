import TwigKV.AccessRate.GetAndSortFreq
import Mathlib.Data.List.Pairwise
import Mathlib.Data.Prod.Lex
import Mathlib.Data.String.Basic

/-! # The cdf is well built

For a frequency vector of distinct canonical keys, `getAndSortFreq` lists every key of the data set
once with its frequency, in buckets of ascending percentile that end at `100`, by descending number
inside a bucket, with the companion map holding the prefix sums (`CdfWellBuilt`). The construction
reads keys with `std::stoi`, so it succeeds exactly when no key of the vector exceeds the range of
`int` (`cdfWellBuilt_iff`). -/

namespace TwigKV.AccessRate

/-- A frequency vector of distinct canonical decimal keys in `1..totalKeys` whose total frequency is
positive and whose hundredfold fits 64 bits. -/
structure IsFrequencyVector (keyFreq : List (String × UInt64)) (totalKeys : UInt64) : Prop where
  /-- Keys are the decimal texts of `1..totalKeys`. -/
  canonical : ∀ kf ∈ keyFreq, ∃ k : ℕ, 1 ≤ k ∧ k ≤ totalKeys.toNat ∧ kf.1 = toString k
  /-- No key occurs twice. -/
  nodup : (keyFreq.map Prod.fst).Nodup
  /-- There was an access. -/
  total_pos : 1 ≤ (keyFreq.map fun kf => kf.2.toNat).sum
  /-- A hundred times the accesses fit 64 bits. -/
  total_le : (keyFreq.map fun kf => kf.2.toNat).sum ≤ (2 ^ 64 - 1) / 100

/-- The keys of a vector: distinct canonical decimal numbers in `1..totalKeys`. -/
structure HasDataSetKeys (keyFreq : List (String × UInt64)) (totalKeys : UInt64) : Prop where
  /-- Keys are the decimal texts of `1..totalKeys`. -/
  canonical : ∀ kf ∈ keyFreq, ∃ k : ℕ, 1 ≤ k ∧ k ≤ totalKeys.toNat ∧ kf.1 = toString k
  /-- No key occurs twice. -/
  nodup : (keyFreq.map Prod.fst).Nodup

/-- The keys of a frequency vector. -/
theorem IsFrequencyVector.hasDataSetKeys {keyFreq : List (String × UInt64)} {totalKeys : UInt64}
    (h : IsFrequencyVector keyFreq totalKeys) : HasDataSetKeys keyFreq totalKeys :=
  ⟨h.canonical, h.nodup⟩

/-- What the cdf of a frequency vector is to look like. -/
structure CdfWellBuilt (keyFreq : List (String × UInt64)) (totalKeys : UInt64) (cdf : CDFType) :
    Prop where
  /-- Every key of the data set stands in the list exactly once. -/
  keys : (cdf.sortedKeyFreqs.map CdfEntry.key).Perm
    ((List.range' 1 totalKeys.toNat).map toString)
  /-- An entry has its key's frequency, `0` when the key is absent from the vector. -/
  freqs : ∀ e ∈ cdf.sortedKeyFreqs,
    (e.key, e.freq) ∈ keyFreq ∨ (e.key ∉ keyFreq.map Prod.fst ∧ e.freq = 0)
  /-- Bucket numbers do not decrease. -/
  buckets_ascending : cdf.sortedKeyFreqs.Pairwise fun e e' => e.bucket ≤ e'.bucket
  /-- No bucket number exceeds `100`. -/
  buckets_le : ∀ e ∈ cdf.sortedKeyFreqs, e.bucket ≤ 100
  /-- The last bucket is bucket `100`. -/
  buckets_end : cdf.sortedKeyFreqs.getLast?.map CdfEntry.bucket = some 100
  /-- A key in a strictly smaller bucket has no smaller frequency. -/
  smaller_bucket : ∀ e ∈ cdf.sortedKeyFreqs, ∀ e' ∈ cdf.sortedKeyFreqs,
    e.bucket < e'.bucket → e'.freq ≤ e.freq
  /-- Inside a bucket the keys stand in strictly descending numeric order. -/
  inside_bucket : cdf.sortedKeyFreqs.Pairwise fun e e' => e.bucket = e'.bucket →
    ∀ k k' : ℕ, e.key = toString k → e'.key = toString k' → k' < k
  /-- The companion map holds the sum of the frequencies up to the key, and the key's bucket. -/
  companion : ∀ i e, cdf.sortedKeyFreqs[i]? = some e → ∃ total : UInt64,
    cdf.keyFreqBucketMap e.key = some (total, e.bucket) ∧
      total.toNat = ((cdf.sortedKeyFreqs.take (i + 1)).map fun e => e.freq.toNat).sum

/-! ## Sorting, truncating and filling -/

/-- `key_map` after the marking loop: set where it was, and at the numbers of the list's keys. -/
theorem markKeys_eq_some {totalKeys : UInt64} {kvs : List (UInt64 × String)} {keyMap : ℕ → Bool}
    {number : UInt64 × String → ℕ}
    (h : ∀ kv ∈ kvs, stoi kv.2 = some (number kv : ℤ) ∧ number kv < (totalKeys + 1).toNat) :
    ∃ keyMap', markKeys totalKeys keyMap kvs = some keyMap' ∧
      ∀ i, keyMap' i = true ↔ keyMap i = true ∨ ∃ kv ∈ kvs, number kv = i := by
  induction kvs generalizing keyMap with
  | nil => exact ⟨keyMap, rfl, fun i => by simp⟩
  | cons kv kvs ih =>
      obtain ⟨hstoi, hlt⟩ := h kv List.mem_cons_self
      obtain ⟨keyMap', hrun, hmap⟩ := @ih (Function.update keyMap (number kv) true)
        fun kv' hkv' => h kv' (List.mem_cons_of_mem _ hkv')
      refine ⟨keyMap', ?_, fun i => ?_⟩
      · rw [markKeys, hstoi, Option.bind_some, if_pos ⟨by omega, by omega⟩, Int.toNat_natCast]
        exact hrun
      · rw [hmap i, Function.update_apply, List.exists_mem_cons_iff]
        by_cases hi : i = number kv
        · simp [hi]
        · simp [hi, Ne.symm hi]

/-- The marking loop throws at a key outside the range of `int`. -/
theorem markKeys_eq_none {totalKeys : UInt64} {kvs : List (UInt64 × String)} {keyMap : ℕ → Bool}
    {kv : UInt64 × String} (hkv : kv ∈ kvs) (hnone : stoi kv.2 = none) :
    markKeys totalKeys keyMap kvs = none := by
  induction kvs generalizing keyMap with
  | nil => exact absurd hkv List.not_mem_nil
  | cons kv' kvs ih =>
      rw [markKeys]
      rcases List.mem_cons.mp hkv with rfl | hmem
      · rw [hnone, Option.bind_none]
      · rcases stoi kv'.2 with _ | i
        · rfl
        · rw [Option.bind_some]
          split
          · exact ih hmem
          · rfl

/-- The number of a key. -/
def keyNumber (key : String) : ℕ := ((scanInteger key).map Prod.snd).getD 0

/-- The number of a canonical key. -/
@[simp] theorem keyNumber_toString (k : ℕ) : keyNumber (toString k) = k := by
  rw [keyNumber, scanInteger_toString, Option.map_some, Option.getD_some]

/-- The sort by frequency and key puts larger frequencies first. -/
theorem stdSort_greaterPair_pairwise (l : List (UInt64 × String)) :
    (stdSort greaterPair l).Pairwise fun x y => y.1 ≤ x.1 := by
  have hsorted := stdSort_pairwise_of_measure (fun kv : UInt64 × String => toLex kv) greaterPair
    (fun x y => by
      rw [greaterPair, ← decide_not, ← Bool.decide_and, ← Bool.decide_or, decide_eq_decide,
        Prod.Lex.toLex_lt_toLex, not_lt]
      constructor
      · rintro (h | ⟨hle, h⟩)
        · exact Or.inl h
        · exact (lt_or_eq_of_le hle).imp id fun heq => ⟨heq, h⟩
      · rintro (h | ⟨heq, h⟩)
        · exact Or.inl h
        · exact Or.inr ⟨heq.le, h⟩) l
  refine hsorted.imp fun {x y} h => ?_
  rcases Prod.Lex.toLex_le_toLex.mp h with hlt | ⟨heq, -⟩
  · exact hlt.le
  · exact heq.le

/-- What the completed list of frequencies and keys is. -/
structure Completes (keyFreq : List (String × UInt64)) (totalKeys : UInt64)
    (sortedKeyFreq : List (UInt64 × String)) : Prop where
  /-- Every key of the data set stands in the list exactly once. -/
  keys : (sortedKeyFreq.map Prod.snd).Perm ((List.range' 1 totalKeys.toNat).map toString)
  /-- A key has its frequency, `0` when it is absent from the vector. -/
  freqs : ∀ kv ∈ sortedKeyFreq,
    (kv.2, kv.1) ∈ keyFreq ∨ (kv.2 ∉ keyFreq.map Prod.fst ∧ kv.1 = 0)
  /-- Frequencies do not increase. -/
  descending : sortedKeyFreq.Pairwise fun x y => y.1 ≤ x.1
  /-- The frequencies add up to the vector's. -/
  total : (sortedKeyFreq.map fun kv => kv.1.toNat).sum = (keyFreq.map fun kf => kf.2.toNat).sum

/-- The vector with frequencies first, sorted: its keys are the vector's. -/
theorem mem_sorted_iff {keyFreq : List (String × UInt64)} {kv : UInt64 × String} :
    kv ∈ stdSort greaterPair (keyFreq.map fun it => (it.2, it.1)) ↔ (kv.2, kv.1) ∈ keyFreq := by
  rw [(stdSort_perm _ _).mem_iff, List.mem_map]
  constructor
  · rintro ⟨kf, hkf, rfl⟩
    exact hkf
  · exact fun h => ⟨_, h, rfl⟩

/-- The keys of the sorted vector, up to order. -/
theorem sorted_keys_perm (keyFreq : List (String × UInt64)) :
    ((stdSort greaterPair (keyFreq.map fun it => (it.2, it.1))).map Prod.snd).Perm
      (keyFreq.map Prod.fst) := by
  refine ((stdSort_perm _ _).map _).trans (List.Perm.of_eq ?_)
  rw [List.map_map]
  rfl

/-- The keys of a frequency vector are among the keys of the data set. -/
theorem HasDataSetKeys.keys_subset {keyFreq : List (String × UInt64)} {totalKeys : UInt64}
    (h : HasDataSetKeys keyFreq totalKeys) :
    keyFreq.map Prod.fst ⊆ (List.range' 1 totalKeys.toNat).map toString := by
  intro key hkey
  obtain ⟨kf, hkf, rfl⟩ := List.mem_map.mp hkey
  obtain ⟨k, hk1, hkN, hk⟩ := h.canonical kf hkf
  exact List.mem_map.mpr ⟨k, List.mem_range'_1.mpr ⟨hk1, by omega⟩, hk.symm⟩

/-- Truncation drops nothing: a frequency vector has at most as many keys as the data set. -/
theorem HasDataSetKeys.take_sorted {keyFreq : List (String × UInt64)} {totalKeys : UInt64}
    (h : HasDataSetKeys keyFreq totalKeys) :
    (stdSort greaterPair (keyFreq.map fun it => (it.2, it.1))).take totalKeys.toNat
      = stdSort greaterPair (keyFreq.map fun it => (it.2, it.1)) := by
  refine List.take_of_length_le ?_
  have hle := (h.nodup.subperm h.keys_subset).length_le
  rw [(stdSort_perm _ _).length_eq, List.length_map]
  simpa using hle

/-- The missing keys, with frequency `0`. -/
def missingKeys (totalKeys : UInt64) (keyMap : ℕ → Bool) : List (UInt64 × String) :=
  ((List.range' 1 totalKeys.toNat).filter fun i => !keyMap i).map fun i => (0, toString i)

/-- The sorted vector followed by the missing keys is the completed list. -/
theorem completes_append_missing {keyFreq : List (String × UInt64)} {totalKeys : UInt64}
    {keyMap : ℕ → Bool} (h : HasDataSetKeys keyFreq totalKeys)
    (hmap : ∀ i, keyMap i = true ↔ toString i ∈ keyFreq.map Prod.fst) :
    Completes keyFreq totalKeys
      (stdSort greaterPair (keyFreq.map fun it => (it.2, it.1)) ++
        missingKeys totalKeys keyMap) := by
  have hrange : (List.range' 1 totalKeys.toNat).Nodup := List.nodup_range'
  have hmissing : ∀ i, i ∈ (List.range' 1 totalKeys.toNat).filter (fun i => !keyMap i) ↔
      i ∈ List.range' 1 totalKeys.toNat ∧ toString i ∉ keyFreq.map Prod.fst := fun i => by
    rw [List.mem_filter, ← hmap i]
    simp
  have hzero : ∀ kv ∈ missingKeys totalKeys keyMap,
      kv.2 ∉ keyFreq.map Prod.fst ∧ kv.1 = 0 := by
    intro kv hkv
    obtain ⟨i, hi, rfl⟩ := List.mem_map.mp hkv
    exact ⟨((hmissing i).mp hi).2, rfl⟩
  constructor
  case keys =>
    have hsnd : (missingKeys totalKeys keyMap).map Prod.snd
        = ((List.range' 1 totalKeys.toNat).filter fun i => !keyMap i).map toString := by
      rw [missingKeys, List.map_map]
      rfl
    rw [List.map_append, hsnd]
    refine ((sorted_keys_perm keyFreq).append_right _).trans
      ((List.perm_ext_iff_of_nodup ?_ ?_).mpr fun key => ?_)
    · refine List.nodup_append'.mpr ⟨h.nodup, ?_, fun key hkey hmem => ?_⟩
      · exact (hrange.filter _).map toString_injective
      · obtain ⟨i, hi, rfl⟩ := List.mem_map.mp hmem
        exact ((hmissing i).mp hi).2 hkey
    · exact hrange.map toString_injective
    · rw [List.mem_append]
      constructor
      · rintro (hkey | hkey)
        · exact h.keys_subset hkey
        · obtain ⟨i, hi, rfl⟩ := List.mem_map.mp hkey
          exact List.mem_map.mpr ⟨i, ((hmissing i).mp hi).1, rfl⟩
      · intro hkey
        by_cases hin : key ∈ keyFreq.map Prod.fst
        · exact Or.inl hin
        · obtain ⟨i, hi, rfl⟩ := List.mem_map.mp hkey
          exact Or.inr (List.mem_map.mpr ⟨i, (hmissing i).mpr ⟨hi, hin⟩, rfl⟩)
  case freqs =>
    intro kv hkv
    rcases List.mem_append.mp hkv with hkv | hkv
    · exact Or.inl (mem_sorted_iff.mp hkv)
    · exact Or.inr (hzero kv hkv)
  case descending =>
    refine List.pairwise_append.mpr ⟨stdSort_greaterPair_pairwise _, ?_, fun x _ y hy => ?_⟩
    · exact List.pairwise_of_forall_mem_list fun x hx y hy => by
        rw [(hzero x hx).2, (hzero y hy).2]
    · rw [(hzero y hy).2]
      exact UInt64.zero_le
  case total =>
    have hsum : ((missingKeys totalKeys keyMap).map fun kv => kv.1.toNat).sum = 0 :=
      List.sum_eq_zero fun n hn => by
        obtain ⟨kv, hkv, rfl⟩ := List.mem_map.mp hn
        rw [(hzero kv hkv).2]
        rfl
    rw [List.map_append, List.sum_append, hsum, Nat.add_zero,
      ((stdSort_perm _ _).map _).sum_eq, List.map_map]
    rfl

/-- Adding one wraps only at the largest word. -/
theorem toNat_succ_of_ne_zero {n : UInt64} (h : n + 1 ≠ 0) : (n + 1).toNat = n.toNat + 1 := by
  have hne : (n + 1).toNat ≠ 0 := fun h0 => h (UInt64.toNat_inj.mp h0)
  rw [UInt64.toNat_add] at hne ⊢
  have hlt := n.toNat_lt
  have hone : (1 : UInt64).toNat = 1 := rfl
  rw [hone] at hne ⊢
  omega

/-- The list of a frequency vector whose keys fit `int` is completed. -/
theorem completeKeyFreq_eq_some {keyFreq : List (String × UInt64)} {totalKeys : UInt64}
    (h : HasDataSetKeys keyFreq totalKeys) (hwrap : totalKeys + 1 ≠ 0)
    (hint : ∀ k : ℕ, toString k ∈ keyFreq.map Prod.fst → k < 2 ^ 31) :
    ∃ sortedKeyFreq, completeKeyFreq keyFreq totalKeys = some sortedKeyFreq ∧
      Completes keyFreq totalKeys sortedKeyFreq := by
  have hkeys : ∀ kv ∈ stdSort greaterPair (keyFreq.map fun it => (it.2, it.1)),
      stoi kv.2 = some (keyNumber kv.2 : ℤ) ∧ keyNumber kv.2 < (totalKeys + 1).toNat := by
    intro kv hkv
    have hmem := mem_sorted_iff.mp hkv
    obtain ⟨k, hk1, hkN, hk⟩ := h.canonical _ hmem
    simp only at hk
    rw [hk, keyNumber_toString, toNat_succ_of_ne_zero hwrap]
    refine ⟨stoi_toString (hint k ?_), by omega⟩
    rw [← hk]
    exact List.mem_map_of_mem hmem
  obtain ⟨keyMap, hrun, hmap⟩ := @markKeys_eq_some totalKeys _ (fun _ => false) _ hkeys
  refine ⟨_, ?_, @completes_append_missing _ _ keyMap h fun i => ?_⟩
  · rw [completeKeyFreq]
    simp only [h.take_sorted]
    rw [if_neg hwrap, hrun, Option.map_some]
    rfl
  · rw [hmap i, ← (sorted_keys_perm keyFreq).mem_iff, List.mem_map]
    constructor
    · rintro (hfalse | ⟨kv, hkv, hnum⟩)
      · exact absurd hfalse Bool.false_ne_true
      · obtain ⟨k, -, -, hk⟩ := h.canonical _ (mem_sorted_iff.mp hkv)
        simp only at hk
        rw [hk, keyNumber_toString] at hnum
        exact ⟨kv, hkv, by rw [hk, hnum]⟩
    · rintro ⟨kv, hkv, hk⟩
      exact Or.inr ⟨kv, hkv, by rw [hk, keyNumber_toString]⟩

/-- The construction throws at a key outside the range of `int`. -/
theorem completeKeyFreq_eq_none {keyFreq : List (String × UInt64)} {totalKeys : UInt64}
    (h : HasDataSetKeys keyFreq totalKeys) {k : ℕ}
    (hk : toString k ∈ keyFreq.map Prod.fst) (hlarge : 2 ^ 31 ≤ k) :
    completeKeyFreq keyFreq totalKeys = none := by
  obtain ⟨kv, hkv, hkey⟩ := List.mem_map.mp ((sorted_keys_perm keyFreq).mem_iff.mpr hk)
  rw [completeKeyFreq]
  simp only [h.take_sorted]
  split
  · rfl
  · rw [markKeys_eq_none hkv (by rw [hkey, stoi_toString_eq_none hlarge]), Option.map_none]

/-- A list is completed only where the keys fit `int` and `key_map` has an element for each, and it
is then complete. -/
theorem HasDataSetKeys.of_completeKeyFreq_eq_some {keyFreq : List (String × UInt64)}
    {totalKeys : UInt64} {sortedKeyFreq : List (UInt64 × String)}
    (h : HasDataSetKeys keyFreq totalKeys)
    (hrun : completeKeyFreq keyFreq totalKeys = some sortedKeyFreq) :
    ((∀ k : ℕ, toString k ∈ keyFreq.map Prod.fst → k < 2 ^ 31) ∧ totalKeys + 1 ≠ 0) ∧
      Completes keyFreq totalKeys sortedKeyFreq := by
  have hint : ∀ k : ℕ, toString k ∈ keyFreq.map Prod.fst → k < 2 ^ 31 := by
    intro k hk
    by_contra hlarge
    rw [completeKeyFreq_eq_none h hk (by omega)] at hrun
    cases hrun
  have hwrap : totalKeys + 1 ≠ 0 := by
    intro hwrap
    rw [completeKeyFreq, if_pos hwrap] at hrun
    cases hrun
  obtain ⟨sortedKeyFreq', hrun', hc⟩ := completeKeyFreq_eq_some h hwrap hint
  rw [hrun, Option.some.injEq] at hrun'
  exact ⟨⟨hint, hwrap⟩, hrun' ▸ hc⟩

/-! ## Percentiles and buckets -/

/-- The entries with the percentile the loop of `fillBuckets` computes for them, in list order. -/
def percentiles (totalFreq : UInt64) :
    UInt64 → List (UInt64 × String) → List (UInt64 × UInt64 × String)
  | _, [] => []
  | cumulativeFreq, kv :: rest =>
      ((cumulativeFreq + kv.1) * 100 / totalFreq, kv) ::
        percentiles totalFreq (cumulativeFreq + kv.1) rest

/-- Filling the buckets pushes every entry under its percentile. -/
theorem fillBuckets_eq_pushAll (totalFreq cumulativeFreq : UInt64)
    (cdfBuckets : BucketMap UInt64 (UInt64 × String)) (kvs : List (UInt64 × String)) :
    fillBuckets totalFreq cumulativeFreq cdfBuckets kvs
      = cdfBuckets.pushAll (percentiles totalFreq cumulativeFreq kvs) := by
  induction kvs generalizing cumulativeFreq cdfBuckets with
  | nil => rfl
  | cons kv kvs ih => rw [fillBuckets, ih, percentiles, BucketMap.pushAll, BucketMap.pushAll,
      List.foldl_cons]

/-- The percentiles annotate the list. -/
theorem percentiles_map_snd (totalFreq cumulativeFreq : UInt64) (kvs : List (UInt64 × String)) :
    (percentiles totalFreq cumulativeFreq kvs).map Prod.snd = kvs := by
  induction kvs generalizing cumulativeFreq with
  | nil => rfl
  | cons kv kvs ih => rw [percentiles, List.map_cons, ih]

/-- The percentile is the one of the natural numbers when a hundred times the total fits. -/
theorem toNat_percentile {totalFreq cumulativeFreq : UInt64}
    (hle : cumulativeFreq.toNat ≤ totalFreq.toNat) (hfit : totalFreq.toNat * 100 < 2 ^ 64) :
    (cumulativeFreq * 100 / totalFreq).toNat = cumulativeFreq.toNat * 100 / totalFreq.toNat := by
  have hhundred : (100 : UInt64).toNat = 100 := rfl
  rw [UInt64.toNat_div, toNat_mul_of_lt (by rw [hhundred]; omega), hhundred]

/-- Percentiles lie between the one reached before and `100`. -/
theorem percentiles_bounds {totalFreq cumulativeFreq : UInt64} {kvs : List (UInt64 × String)}
    (hsum : cumulativeFreq.toNat + (kvs.map fun kv => kv.1.toNat).sum ≤ totalFreq.toNat)
    (hpos : 0 < totalFreq.toNat) (hfit : totalFreq.toNat * 100 < 2 ^ 64) :
    ∀ e ∈ percentiles totalFreq cumulativeFreq kvs,
      cumulativeFreq.toNat * 100 / totalFreq.toNat ≤ e.1.toNat ∧ e.1.toNat ≤ 100 := by
  induction kvs generalizing cumulativeFreq with
  | nil => exact fun e he => absurd he List.not_mem_nil
  | cons kv kvs ih =>
      rw [List.map_cons, List.sum_cons] at hsum
      have hadd := @toNat_add_of_lt cumulativeFreq kv.1 (by omega)
      have hmono : cumulativeFreq.toNat * 100 / totalFreq.toNat
          ≤ (cumulativeFreq + kv.1).toNat * 100 / totalFreq.toNat :=
        Nat.div_le_div_right (by omega)
      intro e he
      rcases List.mem_cons.mp he with rfl | hmem
      · rw [toNat_percentile (by omega) hfit]
        refine ⟨hmono, Nat.div_le_of_le_mul ?_⟩
        rw [Nat.mul_comm totalFreq.toNat]
        omega
      · obtain ⟨hlow, hhigh⟩ := ih (by omega) e hmem
        exact ⟨hmono.trans hlow, hhigh⟩

/-- Percentiles do not decrease along the list. -/
theorem percentiles_pairwise {totalFreq cumulativeFreq : UInt64} {kvs : List (UInt64 × String)}
    (hsum : cumulativeFreq.toNat + (kvs.map fun kv => kv.1.toNat).sum ≤ totalFreq.toNat)
    (hpos : 0 < totalFreq.toNat) (hfit : totalFreq.toNat * 100 < 2 ^ 64) :
    (percentiles totalFreq cumulativeFreq kvs).Pairwise fun e e' => e.1 ≤ e'.1 := by
  induction kvs generalizing cumulativeFreq with
  | nil => exact List.Pairwise.nil
  | cons kv kvs ih =>
      rw [List.map_cons, List.sum_cons] at hsum
      have hadd := @toNat_add_of_lt cumulativeFreq kv.1 (by omega)
      refine List.pairwise_cons.mpr ⟨fun e he => ?_, ih (by omega)⟩
      rw [UInt64.le_iff_toNat_le, toNat_percentile (by omega) hfit]
      exact (percentiles_bounds (by omega) hpos hfit e he).1

/-- Once all frequencies are counted the percentile is `100`. -/
theorem exists_percentile_hundred {totalFreq cumulativeFreq : UInt64}
    {kvs : List (UInt64 × String)} (hne : kvs ≠ [])
    (hsum : cumulativeFreq.toNat + (kvs.map fun kv => kv.1.toNat).sum = totalFreq.toNat)
    (hpos : 0 < totalFreq.toNat) (hfit : totalFreq.toNat * 100 < 2 ^ 64) :
    ∃ e ∈ percentiles totalFreq cumulativeFreq kvs, e.1 = 100 := by
  induction kvs generalizing cumulativeFreq with
  | nil => exact absurd rfl hne
  | cons kv kvs ih =>
      rw [List.map_cons, List.sum_cons] at hsum
      have hadd := @toNat_add_of_lt cumulativeFreq kv.1 (by omega)
      rcases kvs with _ | ⟨kv', kvs⟩
      · rw [List.map_nil, List.sum_nil] at hsum
        have htotal : (cumulativeFreq + kv.1).toNat = totalFreq.toNat := by omega
        refine ⟨((cumulativeFreq + kv.1) * 100 / totalFreq, kv), List.mem_cons_self,
          UInt64.toNat_inj.mp ?_⟩
        rw [toNat_percentile htotal.le hfit, htotal, Nat.mul_div_cancel_left _ hpos]
        rfl
      · obtain ⟨e, he, he100⟩ := @ih (cumulativeFreq + kv.1) (List.cons_ne_nil _ _) (by omega)
        exact ⟨e, List.mem_cons_of_mem _ he, he100⟩

/-! ## Publishing the buckets -/

/-- The entry of a key in a bucket. -/
def toEntry (e : UInt64 × UInt64 × String) : CdfEntry := ⟨e.2.1, e.2.2, e.1⟩

/-- The buckets in ascending order, each sorted by descending number. -/
def orderedEntries (buckets : List (UInt64 × List (UInt64 × String))) :
    List (UInt64 × UInt64 × String) :=
  buckets.flatMap fun b => (stdSort greaterNumber b.2).map fun kv => (b.1, kv)

/-- Publishing the buckets publishes their entries in order. -/
theorem publishBuckets_eq {buckets : List (UInt64 × List (UInt64 × String))}
    (h : ∀ b ∈ buckets, ∀ kv ∈ b.2, (stoull kv.2).isSome) (acc : CDFType × UInt64) :
    publishBuckets acc buckets
      = some ((orderedEntries buckets).foldl (fun acc e => publishEntry e.1 acc e.2) acc) := by
  induction buckets generalizing acc with
  | nil => rfl
  | cons b buckets ih =>
      rw [publishBuckets, sortBucket, if_pos (Or.inr (h b List.mem_cons_self)), Option.bind_some,
        ih fun b' hb' => h b' (List.mem_cons_of_mem _ hb')]
      have hcons : orderedEntries (b :: buckets)
          = (stdSort greaterNumber b.2).map (fun kv => (b.1, kv)) ++ orderedEntries buckets :=
        List.flatMap_cons
      rw [hcons, List.foldl_append, List.foldl_map]

/-- The published list. -/
theorem foldl_publishEntry_sortedKeyFreqs (l : List (UInt64 × UInt64 × String))
    (acc : CDFType × UInt64) :
    (l.foldl (fun acc e => publishEntry e.1 acc e.2) acc).1.sortedKeyFreqs
      = acc.1.sortedKeyFreqs ++ l.map toEntry := by
  induction l generalizing acc with
  | nil => rw [List.foldl_nil, List.map_nil, List.append_nil]
  | cons e l ih =>
      rw [List.foldl_cons, ih, publishEntry, List.map_cons, List.append_assoc]
      rfl

/-- Publishing leaves the companion map alone at other keys. -/
theorem foldl_publishEntry_keyFreqBucketMap_of_not_mem (l : List (UInt64 × UInt64 × String))
    (acc : CDFType × UInt64) {key : String} (h : key ∉ l.map fun e => e.2.2) :
    (l.foldl (fun acc e => publishEntry e.1 acc e.2) acc).1.keyFreqBucketMap key
      = acc.1.keyFreqBucketMap key := by
  induction l generalizing acc with
  | nil => rfl
  | cons e l ih =>
      rw [List.map_cons, List.mem_cons, not_or] at h
      rw [List.foldl_cons, ih _ h.2, publishEntry]
      exact Function.update_of_ne h.1 _ _

/-- The companion map holds the prefix sums and the buckets. -/
theorem foldl_publishEntry_keyFreqBucketMap {l : List (UInt64 × UInt64 × String)}
    {acc : CDFType × UInt64} (hnodup : (l.map fun e => e.2.2).Nodup) {i : ℕ}
    {e : UInt64 × UInt64 × String} (hi : l[i]? = some e) :
    (l.foldl (fun acc e => publishEntry e.1 acc e.2) acc).1.keyFreqBucketMap e.2.2
      = some (acc.2 + ((l.take (i + 1)).map fun e => e.2.1).sum, e.1) := by
  induction l generalizing acc i with
  | nil => exact absurd hi (by simp)
  | cons e₀ l ih =>
      obtain ⟨hnot, hnodup'⟩ := List.nodup_cons.mp hnodup
      rw [List.foldl_cons, List.take_succ_cons, List.map_cons, List.sum_cons]
      cases i with
      | zero =>
          rw [List.getElem?_cons_zero, Option.some.injEq] at hi
          subst hi
          rw [foldl_publishEntry_keyFreqBucketMap_of_not_mem l _ hnot, List.take_zero, List.map_nil,
            List.sum_nil, add_zero]
          exact Function.update_self _ _ _
      | succ i =>
          rw [List.getElem?_cons_succ] at hi
          have hacc : (publishEntry e₀.1 acc e₀.2).2 = acc.2 + e₀.2.1 := rfl
          rw [ih hnodup' hi, hacc, add_assoc]

/-! ## The whole construction -/

/-- Sorting the buckets permutes the contents of the map. -/
theorem orderedEntries_perm (m : BucketMap UInt64 (UInt64 × String)) :
    (orderedEntries m.buckets).Perm m.contents :=
  List.Perm.flatMap_left _ fun _ _ => (stdSort_perm _ _).map _

/-- In ascending buckets sorted by descending number, entries stand by ascending bucket and inside a
bucket by descending number. -/
theorem orderedEntries_pairwise (m : BucketMap UInt64 (UInt64 × String)) :
    (orderedEntries m.buckets).Pairwise fun e e' => e.1 ≤ e'.1 ∧
      (e.1 = e'.1 → (stoull e'.2.2).getD 0 ≤ (stoull e.2.2).getD 0) := by
  refine List.pairwise_flatMap.mpr ⟨fun b _ => ?_, m.ascending.imp fun {b b'} hlt e he e' he' => ?_⟩
  · refine List.pairwise_map.mpr ((stdSort_pairwise_of_measure
      (fun kv : UInt64 × String => (stoull kv.2).getD 0) greaterNumber (fun _ _ => rfl) b.2).imp
      fun {kv kv'} hle => ⟨le_refl b.1, fun _ => hle⟩)
  · obtain ⟨kv, -, rfl⟩ := List.mem_map.mp he
    obtain ⟨kv', -, rfl⟩ := List.mem_map.mp he'
    exact ⟨hlt.le, fun heq => absurd heq (ne_of_lt hlt)⟩

/-- The list of a data set with a key is not empty. -/
theorem Completes.ne_nil {keyFreq : List (String × UInt64)} {totalKeys : UInt64}
    {sortedKeyFreq : List (UInt64 × String)} (hc : Completes keyFreq totalKeys sortedKeyFreq)
    (hN : 1 ≤ totalKeys) : sortedKeyFreq ≠ [] := by
  intro hnil
  have hlen := hc.keys.length_eq
  have hN' : 1 ≤ totalKeys.toNat := UInt64.le_iff_toNat_le.mp hN
  rw [hnil, List.map_nil, List.length_map, List.length_range', List.length_nil] at hlen
  omega

/-- The keys of the completed list are canonical 64-bit numbers. -/
theorem Completes.canonical {keyFreq : List (String × UInt64)} {totalKeys : UInt64}
    {sortedKeyFreq : List (UInt64 × String)} (hc : Completes keyFreq totalKeys sortedKeyFreq)
    {kv : UInt64 × String} (hkv : kv ∈ sortedKeyFreq) :
    ∃ k : ℕ, k < 2 ^ 64 ∧ kv.2 = toString k := by
  obtain ⟨k, hk, hkey⟩ := List.mem_map.mp (hc.keys.mem_iff.mp (List.mem_map_of_mem hkv))
  have hlt := totalKeys.toNat_lt
  obtain ⟨-, hkN⟩ := List.mem_range'_1.mp hk
  exact ⟨k, by omega, hkey.symm⟩

/-- `total_freq`. -/
def totalFreqOf (sortedKeyFreq : List (UInt64 × String)) : UInt64 :=
  sortedKeyFreq.foldl (fun total kv => total + kv.1) 0

/-- The entries of a completed list in the order they are published. -/
def publication (sortedKeyFreq : List (UInt64 × String)) : List (UInt64 × UInt64 × String) :=
  orderedEntries (fillBuckets (totalFreqOf sortedKeyFreq) 0 BucketMap.empty sortedKeyFreq).buckets

/-- The published entries are those of the list with their percentiles. -/
theorem publication_perm (sortedKeyFreq : List (UInt64 × String)) :
    (publication sortedKeyFreq).Perm
      (percentiles (totalFreqOf sortedKeyFreq) 0 sortedKeyFreq) := by
  rw [publication, fillBuckets_eq_pushAll]
  exact (orderedEntries_perm _).trans (BucketMap.contents_pushAll_empty_perm _)

/-- The published keys and frequencies are those of the list. -/
theorem publication_map_snd_perm (sortedKeyFreq : List (UInt64 × String)) :
    ((publication sortedKeyFreq).map Prod.snd).Perm sortedKeyFreq := by
  have hmap := (publication_perm sortedKeyFreq).map Prod.snd
  rwa [percentiles_map_snd] at hmap

section Publication

variable {keyFreq : List (String × UInt64)} {totalKeys : UInt64}
  {sortedKeyFreq : List (UInt64 × String)}

/-- The keys published are the keys of the data set. -/
theorem Completes.publication_keys (hc : Completes keyFreq totalKeys sortedKeyFreq) :
    ((publication sortedKeyFreq).map fun e => e.2.2).Perm
      ((List.range' 1 totalKeys.toNat).map toString) := by
  have hkey := ((publication_map_snd_perm sortedKeyFreq).map Prod.snd).trans hc.keys
  rwa [List.map_map] at hkey

/-- No key is published twice. -/
theorem Completes.publication_nodup (hc : Completes keyFreq totalKeys sortedKeyFreq) :
    ((publication sortedKeyFreq).map fun e => e.2.2).Nodup := by
  have hrange : (List.range' 1 totalKeys.toNat).Nodup := List.nodup_range'
  exact hc.publication_keys.nodup_iff.mpr (hrange.map toString_injective)

/-- A published entry is one of the list. -/
theorem snd_mem_of_mem_publication {e : UInt64 × UInt64 × String}
    (he : e ∈ publication sortedKeyFreq) : e.2 ∈ sortedKeyFreq :=
  (publication_map_snd_perm sortedKeyFreq).mem_iff.mp (List.mem_map_of_mem he)

/-- The total frequency does not wrap. -/
theorem Completes.toNat_totalFreqOf (hc : Completes keyFreq totalKeys sortedKeyFreq)
    (h : IsFrequencyVector keyFreq totalKeys) :
    (totalFreqOf sortedKeyFreq).toNat = (sortedKeyFreq.map fun kv => kv.1.toNat).sum := by
  have hle := h.total_le
  rw [totalFreqOf, toNat_foldl_add Prod.fst sortedKeyFreq 0
    (by rw [hc.total, UInt64.toNat_zero]; omega), UInt64.toNat_zero, Nat.zero_add]

/-- From zero the frequencies add up to the total. -/
theorem Completes.zero_add_sum (hc : Completes keyFreq totalKeys sortedKeyFreq)
    (h : IsFrequencyVector keyFreq totalKeys) :
    (0 : UInt64).toNat + (sortedKeyFreq.map fun kv => kv.1.toNat).sum
      = (totalFreqOf sortedKeyFreq).toNat := by
  rw [hc.toNat_totalFreqOf h, UInt64.toNat_zero, Nat.zero_add]

/-- The total frequency is positive and its hundredfold fits 64 bits. -/
theorem Completes.totalFreqOf_bounds (hc : Completes keyFreq totalKeys sortedKeyFreq)
    (h : IsFrequencyVector keyFreq totalKeys) :
    0 < (totalFreqOf sortedKeyFreq).toNat ∧ (totalFreqOf sortedKeyFreq).toNat * 100 < 2 ^ 64 := by
  have hpos := h.total_pos
  have hle := h.total_le
  rw [hc.toNat_totalFreqOf h, hc.total]
  omega

/-- The published frequencies add up to the total. -/
theorem Completes.sum_publication (hc : Completes keyFreq totalKeys sortedKeyFreq)
    (h : IsFrequencyVector keyFreq totalKeys) :
    ((publication sortedKeyFreq).map fun e => e.2.1.toNat).sum
      = (totalFreqOf sortedKeyFreq).toNat := by
  have hs := ((publication_map_snd_perm sortedKeyFreq).map fun kv => kv.1.toNat).sum_eq
  rw [List.map_map] at hs
  exact hs.trans (hc.toNat_totalFreqOf h).symm

/-- From a list of numeric keys with accesses on, the construction publishes its entries. -/
theorem getAndSortFreq_eq_publication
    (hrun : completeKeyFreq keyFreq totalKeys = some sortedKeyFreq)
    (hpos : totalFreqOf sortedKeyFreq ≠ 0) (hkeys : ∀ kv ∈ sortedKeyFreq, (stoull kv.2).isSome) :
    getAndSortFreq keyFreq totalKeys = some ((publication sortedKeyFreq).foldl
      (fun acc e => publishEntry e.1 acc e.2) (⟨[], fun _ => none⟩, 0)).1 := by
  have hstoull : ∀ b ∈ (fillBuckets (totalFreqOf sortedKeyFreq) 0 BucketMap.empty
      sortedKeyFreq).buckets, ∀ kv ∈ b.2, (stoull kv.2).isSome := by
    intro b hb kv hkv
    have hmem : (b.1, kv) ∈ publication sortedKeyFreq :=
      List.mem_flatMap.mpr ⟨b, hb, List.mem_map_of_mem ((stdSort_perm _ _).mem_iff.mpr hkv)⟩
    exact hkeys kv (snd_mem_of_mem_publication hmem)
  rw [getAndSortFreq, hrun, Option.bind_some]
  simp only
  rw [if_neg, ← totalFreqOf, publishBuckets_eq hstoull, Option.map_some]
  · rfl
  · exact fun h => hpos h.1

/-- A completed list has numeric keys. -/
theorem Completes.stoull_isSome (hc : Completes keyFreq totalKeys sortedKeyFreq) :
    ∀ kv ∈ sortedKeyFreq, (stoull kv.2).isSome := by
  intro kv hkv
  obtain ⟨k, hk, hkey⟩ := hc.canonical hkv
  rw [hkey, stoull_toString hk]
  rfl

/-- Published percentiles are at most `100`. -/
theorem Completes.publication_le_hundred (hc : Completes keyFreq totalKeys sortedKeyFreq)
    (h : IsFrequencyVector keyFreq totalKeys) {e : UInt64 × UInt64 × String}
    (he : e ∈ publication sortedKeyFreq) : e.1 ≤ 100 := by
  obtain ⟨hpos, hfit⟩ := hc.totalFreqOf_bounds h
  exact UInt64.le_iff_toNat_le.mpr (percentiles_bounds (hc.zero_add_sum h).le hpos hfit e
    ((publication_perm sortedKeyFreq).mem_iff.mp he)).2

/-- The last published percentile is `100`. -/
theorem Completes.publication_end (hc : Completes keyFreq totalKeys sortedKeyFreq)
    (h : IsFrequencyVector keyFreq totalKeys) (hN : 1 ≤ totalKeys) :
    (publication sortedKeyFreq).getLast?.map Prod.fst = some 100 := by
  obtain ⟨hpos, hfit⟩ := hc.totalFreqOf_bounds h
  obtain ⟨e, he, he100⟩ := exists_percentile_hundred (hc.ne_nil hN) (hc.zero_add_sum h) hpos hfit
  have hmem := (publication_perm sortedKeyFreq).mem_iff.mpr he
  -- the last entry is no smaller than the one that reaches 100
  obtain ⟨init, last, hlast⟩ :=
    (List.eq_nil_or_concat' (publication sortedKeyFreq)).resolve_left (List.ne_nil_of_mem hmem)
  have hle : last.1 ≤ 100 := hc.publication_le_hundred h (by rw [hlast]; simp)
  have hpair := orderedEntries_pairwise
    (fillBuckets (totalFreqOf sortedKeyFreq) 0 BucketMap.empty sortedKeyFreq)
  rw [← publication, hlast] at hpair
  rw [hlast, List.getLast?_concat, Option.map_some, Option.some.injEq]
  rw [hlast] at hmem
  rcases List.mem_append.mp hmem with hin | hin
  · refine le_antisymm hle ?_
    rw [← he100]
    exact ((List.pairwise_append.mp hpair).2.2 e hin last List.mem_cons_self).1
  · rw [← List.mem_singleton.mp hin, he100]

/-- Larger percentiles belong to no larger frequencies. -/
theorem Completes.publication_smaller_bucket (hc : Completes keyFreq totalKeys sortedKeyFreq)
    (h : IsFrequencyVector keyFreq totalKeys) {e e' : UInt64 × UInt64 × String}
    (he : e ∈ publication sortedKeyFreq) (he' : e' ∈ publication sortedKeyFreq)
    (hlt : e.1 < e'.1) : e'.2.1 ≤ e.2.1 := by
  obtain ⟨hpos, hfit⟩ := hc.totalFreqOf_bounds h
  -- along the list percentiles rise while frequencies fall
  have hfreq : (percentiles (totalFreqOf sortedKeyFreq) 0 sortedKeyFreq).Pairwise
      fun x y => y.2.1 ≤ x.2.1 := by
    have hdesc := hc.descending
    rw [← percentiles_map_snd (totalFreqOf sortedKeyFreq) 0 sortedKeyFreq] at hdesc
    exact List.pairwise_map.mp hdesc
  have hboth := (percentiles_pairwise (hc.zero_add_sum h).le hpos hfit).and hfreq
  refine List.Pairwise.forall_of_forall_of_flip
    (R := fun x y : UInt64 × UInt64 × String => x.1 < y.1 → y.2.1 ≤ x.2.1)
    (fun x _ hxx => absurd hxx (lt_irrefl _)) (hboth.imp fun {x y} hxy _ => hxy.2)
    (hboth.imp fun {x y} hxy hyx => absurd hxy.1 (not_le.mpr hyx))
    ((publication_perm sortedKeyFreq).mem_iff.mp he)
    ((publication_perm sortedKeyFreq).mem_iff.mp he') hlt

/-- Inside a bucket the published keys descend. -/
theorem Completes.publication_inside_bucket (hc : Completes keyFreq totalKeys sortedKeyFreq) :
    (publication sortedKeyFreq).Pairwise fun e e' => e.1 = e'.1 →
      ∀ k k' : ℕ, e.2.2 = toString k → e'.2.2 = toString k' → k' < k := by
  have hnodup : (publication sortedKeyFreq).Pairwise fun e e' => e.2.2 ≠ e'.2.2 :=
    List.pairwise_map.mp hc.publication_nodup
  refine ((orderedEntries_pairwise _).and hnodup).imp_of_mem
    fun {e e'} he he' hee hbucket k k' hk hk' => ?_
  obtain ⟨l, hl, hle⟩ := hc.canonical (snd_mem_of_mem_publication he)
  obtain ⟨l', hl', hle'⟩ := hc.canonical (snd_mem_of_mem_publication he')
  rw [toString_injective (hk.symm.trans hle)]
  rw [toString_injective (hk'.symm.trans hle')]
  have hnum := hee.1.2 hbucket
  rw [hle, hle', stoull_toString hl, stoull_toString hl', Option.getD_some, Option.getD_some,
    UInt64.le_iff_toNat_le, UInt64.toNat_ofNat_of_lt' hl, UInt64.toNat_ofNat_of_lt' hl'] at hnum
  exact lt_of_le_of_ne hnum fun heq => hee.2 (by rw [hle, hle', heq])

/-- From a completed list on, the construction succeeds and the cdf is well built. -/
theorem Completes.cdfWellBuilt (hc : Completes keyFreq totalKeys sortedKeyFreq)
    (h : IsFrequencyVector keyFreq totalKeys) (hN : 1 ≤ totalKeys)
    (hrun : completeKeyFreq keyFreq totalKeys = some sortedKeyFreq) :
    ∃ cdf, getAndSortFreq keyFreq totalKeys = some cdf ∧ CdfWellBuilt keyFreq totalKeys cdf := by
  have hpos : totalFreqOf sortedKeyFreq ≠ 0 := fun h0 => by
    have hlt := (hc.totalFreqOf_bounds h).1
    rw [h0, UInt64.toNat_zero] at hlt
    exact absurd hlt (Nat.lt_irrefl 0)
  refine ⟨_, getAndSortFreq_eq_publication hrun hpos hc.stoull_isSome, ?_⟩
  have hlist := foldl_publishEntry_sortedKeyFreqs (publication sortedKeyFreq)
    (⟨[], fun _ => none⟩, 0)
  rw [List.nil_append] at hlist
  constructor
  case keys =>
    rw [hlist, List.map_map]
    exact hc.publication_keys
  case freqs =>
    intro e he
    rw [hlist] at he
    obtain ⟨e₀, he₀, rfl⟩ := List.mem_map.mp he
    exact hc.freqs _ (snd_mem_of_mem_publication he₀)
  case buckets_ascending =>
    rw [hlist]
    exact List.pairwise_map.mpr ((orderedEntries_pairwise _).imp fun h => h.1)
  case buckets_le =>
    intro e he
    rw [hlist] at he
    obtain ⟨e₀, he₀, rfl⟩ := List.mem_map.mp he
    exact hc.publication_le_hundred h he₀
  case buckets_end =>
    rw [hlist, List.getLast?_map, Option.map_map]
    exact hc.publication_end h hN
  case smaller_bucket =>
    intro e he e' he' hlt
    rw [hlist] at he he'
    obtain ⟨e₀, he₀, rfl⟩ := List.mem_map.mp he
    obtain ⟨e₀', he₀', rfl⟩ := List.mem_map.mp he'
    exact hc.publication_smaller_bucket h he₀ he₀' hlt
  case inside_bucket =>
    rw [hlist]
    exact List.pairwise_map.mpr hc.publication_inside_bucket
  case companion =>
    intro i e hi
    rw [hlist, List.getElem?_map, Option.map_eq_some_iff] at hi
    obtain ⟨e₀, hi₀, rfl⟩ := hi
    have hmap := @foldl_publishEntry_keyFreqBucketMap _ (⟨[], fun _ => none⟩, 0)
      hc.publication_nodup _ _ hi₀
    refine ⟨_, hmap, ?_⟩
    -- the sums do not wrap, as the total does not
    have hall := hc.sum_publication h
    have hfit := (hc.totalFreqOf_bounds h).2
    rw [← List.take_append_drop (i + 1) (publication sortedKeyFreq), List.map_append,
      List.sum_append] at hall
    rw [zero_add, toNat_sum_map_of_lt _ _ (by omega), hlist, ← List.map_take, List.map_map]
    rfl

end Publication

/-- **The cdf construction.** For every frequency vector over `1..totalKeys`, `getAndSortFreq`
returns a well-built cdf exactly when every key of the vector is in the range of `int`, which
`std::stoi` reads (and `total_keys + 1`, the size of `key_map`, does not wrap). -/
theorem cdfWellBuilt_iff {keyFreq : List (String × UInt64)} {totalKeys : UInt64}
    (hN : 1 ≤ totalKeys) (h : IsFrequencyVector keyFreq totalKeys) :
    (∃ cdf, getAndSortFreq keyFreq totalKeys = some cdf ∧
        CdfWellBuilt keyFreq totalKeys cdf) ↔
      (∀ k : ℕ, toString k ∈ keyFreq.map Prod.fst → k < 2 ^ 31) ∧ totalKeys + 1 ≠ 0 := by
  constructor
  · rintro ⟨cdf, hrun, -⟩
    rw [getAndSortFreq, Option.bind_eq_some_iff] at hrun
    obtain ⟨sortedKeyFreq, hcomplete, -⟩ := hrun
    exact (h.hasDataSetKeys.of_completeKeyFreq_eq_some hcomplete).1
  · rintro ⟨hint, hwrap⟩
    obtain ⟨sortedKeyFreq, hrun, hc⟩ := completeKeyFreq_eq_some h.hasDataSetKeys hwrap hint
    exact hc.cdfWellBuilt h hN hrun

/-- A single accessed key is a frequency vector. -/
theorem isFrequencyVector_singleton {k : ℕ} {totalKeys freq : UInt64} (hk : 1 ≤ k)
    (hkN : k ≤ totalKeys.toNat) (hpos : 1 ≤ freq.toNat) (hle : freq.toNat ≤ (2 ^ 64 - 1) / 100) :
    IsFrequencyVector [(toString k, freq)] totalKeys := by
  constructor
  case canonical =>
    intro kf hkf
    rw [List.mem_singleton.mp hkf]
    exact ⟨k, hk, hkN, rfl⟩
  case nodup => exact List.nodup_singleton _
  case total_pos => simpa using hpos
  case total_le => simpa using hle

/-- Two keys, three accesses to the second. -/
theorem cdfWellBuilt_iff_two_keys : ∃ cdf, getAndSortFreq [(toString 2, 3)] 2 = some cdf ∧
    CdfWellBuilt [(toString 2, 3)] 2 cdf := by
  refine (cdfWellBuilt_iff (by decide)
    (isFrequencyVector_singleton (by decide) (by decide) (by decide) (by decide))).mpr
    ⟨fun k hk => ?_, by decide⟩
  rw [toString_injective (List.mem_singleton.mp hk)]
  decide

/-- The key `2147483648` of a data set of as many keys makes `std::stoi` throw. -/
theorem getAndSortFreq_key_beyond_int :
    IsFrequencyVector [(toString 2147483648, 1)] 2147483648 ∧
      ¬ ∃ cdf, getAndSortFreq [(toString 2147483648, 1)] 2147483648 = some cdf ∧
        CdfWellBuilt [(toString 2147483648, 1)] 2147483648 cdf := by
  have h := @isFrequencyVector_singleton 2147483648 2147483648 1 (by decide) (by decide)
    (by decide) (by decide)
  refine ⟨h, ?_⟩
  rintro ⟨cdf, hrun, -⟩
  rw [getAndSortFreq, completeKeyFreq_eq_none h.hasDataSetKeys (List.mem_singleton.mpr rfl)
    (by decide), Option.bind_none] at hrun
  exact absurd hrun (by simp)

end TwigKV.AccessRate
