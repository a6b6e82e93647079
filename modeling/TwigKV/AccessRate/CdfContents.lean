import TwigKV.AccessRate.CdfConstruction
import TwigKV.AccessRate.Performance
import TwigKV.Foundations.PrefixSums

/-! # What any cdf contains

The cdf of a vector whose total frequency wraps, or whose keys are not canonical, need not be well
built, but the construction still publishes the completed list in order
(`exists_publication_of_getAndSortFreq`). With distinct keys every key stands in the list once
(`nodup_keys_of_getAndSortFreq`), so the companion map holds at every position the sum of the
frequencies up to it, modulo `2 ^ 64` (`prefixSumAt_of_getAndSortFreq`). -/

namespace TwigKV.AccessRate

/-- The frequencies of a cdf, in list order. -/
def CDFType.freqs (cdf : CDFType) : List UInt64 := cdf.sortedKeyFreqs.map CdfEntry.freq

/-! ## A successful construction -/

/-- Buckets that were sorted were published in order. -/
theorem eq_of_publishBuckets_eq_some {acc result : CDFType × UInt64}
    {buckets : List (UInt64 × List (UInt64 × String))}
    (h : publishBuckets acc buckets = some result) :
    result = (orderedEntries buckets).foldl (fun acc e => publishEntry e.1 acc e.2) acc := by
  induction buckets generalizing acc with
  | nil => exact (Option.some.inj h).symm
  | cons b buckets ih =>
      rw [publishBuckets, Option.bind_eq_some_iff] at h
      obtain ⟨bucketKeys, hsort, hrest⟩ := h
      have hkeys : bucketKeys = stdSort greaterNumber b.2 := by
        rw [sortBucket] at hsort
        split at hsort
        · exact (Option.some.inj hsort).symm
        · cases hsort
      have hcons : orderedEntries (b :: buckets)
          = (stdSort greaterNumber b.2).map (fun kv => (b.1, kv)) ++ orderedEntries buckets :=
        List.flatMap_cons
      rw [ih hrest, hkeys, hcons, List.foldl_append, List.foldl_map]

/-- A cdf is the publication of the completed list. -/
theorem exists_publication_of_getAndSortFreq {keyFreq : List (String × UInt64)}
    {totalKeys : UInt64} {cdf : CDFType} (h : getAndSortFreq keyFreq totalKeys = some cdf) :
    ∃ sortedKeyFreq, completeKeyFreq keyFreq totalKeys = some sortedKeyFreq ∧
      cdf = ((publication sortedKeyFreq).foldl (fun acc e => publishEntry e.1 acc e.2)
        (⟨[], fun _ => none⟩, 0)).1 := by
  rw [getAndSortFreq, Option.bind_eq_some_iff] at h
  obtain ⟨sortedKeyFreq, hcomplete, hpublish⟩ := h
  refine ⟨sortedKeyFreq, hcomplete, ?_⟩
  simp only at hpublish
  split at hpublish
  · cases hpublish
  · obtain ⟨result, hresult, rfl⟩ := Option.map_eq_some_iff.mp hpublish
    rw [eq_of_publishBuckets_eq_some hresult]
    rfl

/-- Its entries. -/
theorem sortedKeyFreqs_publication (sortedKeyFreq : List (UInt64 × String)) :
    ((publication sortedKeyFreq).foldl (fun acc e => publishEntry e.1 acc e.2)
        (⟨[], fun _ => none⟩, 0)).1.sortedKeyFreqs
      = (publication sortedKeyFreq).map toEntry := by
  rw [foldl_publishEntry_sortedKeyFreqs, List.nil_append]

/-! ## Keys that are marked -/

/-- The marking loop reads every key, and marks its number. -/
theorem stoi_of_markKeys_eq_some {totalKeys : UInt64} {kvs : List (UInt64 × String)}
    {keyMap keyMap' : ℕ → Bool} (h : markKeys totalKeys keyMap kvs = some keyMap') :
    (∀ i, keyMap i = true → keyMap' i = true) ∧
      ∀ kv ∈ kvs, ∃ i : ℕ, stoi kv.2 = some (i : ℤ) ∧ keyMap' i = true := by
  induction kvs generalizing keyMap with
  | nil =>
      rw [markKeys, Option.some.injEq] at h
      subst h
      exact ⟨fun _ hi => hi, fun kv hkv => absurd hkv List.not_mem_nil⟩
  | cons kv kvs ih =>
      rw [markKeys, Option.bind_eq_some_iff] at h
      obtain ⟨value, hvalue, hrest⟩ := h
      split at hrest
      · next hbounds =>
        obtain ⟨hkept, hmarked⟩ := ih hrest
        have hnat : ((value.toNat : ℕ) : ℤ) = value := Int.toNat_of_nonneg hbounds.1
        refine ⟨fun i hi => hkept i ?_, fun kv' hkv' => ?_⟩
        · rw [Function.update_apply]
          split
          · rfl
          · exact hi
        · rcases List.mem_cons.mp hkv' with rfl | hmem
          · exact ⟨value.toNat, by rw [hvalue, hnat], hkept _ (Function.update_self _ _ _)⟩
          · exact hmarked kv' hmem
      · cases hrest

/-- A completed list: the sorted and truncated vector, and the numbers that are not marked, none of
them the number of a key of the vector. -/
theorem exists_of_completeKeyFreq_eq_some {keyFreq : List (String × UInt64)} {totalKeys : UInt64}
    {sortedKeyFreq : List (UInt64 × String)}
    (h : completeKeyFreq keyFreq totalKeys = some sortedKeyFreq) :
    ∃ (accessed : List (UInt64 × String)) (keyMap : ℕ → Bool),
      accessed = (stdSort greaterPair (keyFreq.map fun it => (it.2, it.1))).take totalKeys.toNat ∧
      sortedKeyFreq = accessed ++ missingKeys totalKeys keyMap ∧
      ∀ kv ∈ accessed, ∃ i : ℕ, stoi kv.2 = some (i : ℤ) ∧ keyMap i = true := by
  rw [completeKeyFreq] at h
  split at h
  · cases h
  · obtain ⟨keyMap, hmark, rfl⟩ := Option.map_eq_some_iff.mp h
    exact ⟨_, keyMap, rfl, rfl, (stoi_of_markKeys_eq_some hmark).2⟩

/-- The numbers that are filled in are not marked. -/
theorem keyMap_of_mem_missingKeys {totalKeys : UInt64} {keyMap : ℕ → Bool}
    {kv : UInt64 × String} (h : kv ∈ missingKeys totalKeys keyMap) :
    ∃ i, kv = (0, toString i) ∧ i ≤ totalKeys.toNat ∧ keyMap i = false := by
  rw [missingKeys, List.mem_map] at h
  obtain ⟨i, hi, rfl⟩ := h
  obtain ⟨hrange, hfree⟩ := List.mem_filter.mp hi
  have := (List.mem_range'_1.mp hrange).2
  exact ⟨i, rfl, by omega, by simpa using hfree⟩

/-- Different numbers are filled in. -/
theorem missingKeys_nodup (totalKeys : UInt64) (keyMap : ℕ → Bool) :
    ((missingKeys totalKeys keyMap).map Prod.snd).Nodup := by
  have hrange : (List.range' 1 totalKeys.toNat).Nodup := List.nodup_range'
  rw [missingKeys, List.map_map]
  exact (hrange.filter _).map toString_injective

/-- The keys of a completed list are distinct if those of the vector are. -/
theorem nodup_of_completeKeyFreq {keyFreq : List (String × UInt64)} {totalKeys : UInt64}
    {sortedKeyFreq : List (UInt64 × String)} (hnodup : (keyFreq.map Prod.fst).Nodup)
    (h : completeKeyFreq keyFreq totalKeys = some sortedKeyFreq) :
    (sortedKeyFreq.map Prod.snd).Nodup := by
  obtain ⟨accessed, keyMap, haccessed, rfl, hmarked⟩ := exists_of_completeKeyFreq_eq_some h
  rw [List.map_append]
  refine List.nodup_append'.mpr ⟨?_, missingKeys_nodup totalKeys keyMap, fun key hkey hmem => ?_⟩
  · rw [haccessed, List.map_take]
    exact ((sorted_keys_perm keyFreq).nodup_iff.mpr hnodup).sublist (List.take_sublist _ _)
  · -- a number that is filled in is not marked, a key of the vector is
    obtain ⟨kv, hkv, rfl⟩ := List.mem_map.mp hkey
    obtain ⟨kv', hkv', heq⟩ := List.mem_map.mp hmem
    obtain ⟨i, hi, hmark⟩ := hmarked kv hkv
    obtain ⟨i', rfl, -, hfree⟩ := keyMap_of_mem_missingKeys hkv'
    rw [← heq] at hi
    have hii := (eq_of_stoi_toString hi).1
    rw [Int.natCast_inj.mp hii, hfree] at hmark
    exact Bool.false_ne_true hmark

/-! ## The companion map -/

section Companion

variable {keyFreq : List (String × UInt64)} {totalKeys : UInt64} {cdf : CDFType}

/-- Every key stands in the cdf once. -/
theorem nodup_keys_of_getAndSortFreq (hnodup : (keyFreq.map Prod.fst).Nodup)
    (h : getAndSortFreq keyFreq totalKeys = some cdf) :
    (cdf.sortedKeyFreqs.map CdfEntry.key).Nodup := by
  obtain ⟨sortedKeyFreq, hcomplete, rfl⟩ := exists_publication_of_getAndSortFreq h
  rw [sortedKeyFreqs_publication, List.map_map]
  have hkeys := (publication_map_snd_perm sortedKeyFreq).map Prod.snd
  rw [List.map_map] at hkeys
  exact hkeys.nodup_iff.mpr (nodup_of_completeKeyFreq hnodup hcomplete)

/-- The companion map gives the key at a position the sum of the frequencies up to it. -/
theorem prefixSumAt_of_getAndSortFreq (hnodup : (keyFreq.map Prod.fst).Nodup)
    (h : getAndSortFreq keyFreq totalKeys = some cdf) {i : ℕ}
    (hi : i < cdf.sortedKeyFreqs.length) :
    prefixSumAt cdf i = prefixSum cdf.freqs (i + 1) := by
  have hkeys := nodup_keys_of_getAndSortFreq hnodup h
  obtain ⟨sortedKeyFreq, -, rfl⟩ := exists_publication_of_getAndSortFreq h
  rw [sortedKeyFreqs_publication, List.map_map] at hkeys
  rw [sortedKeyFreqs_publication, List.length_map] at hi
  have he : (publication sortedKeyFreq)[i]? = some (publication sortedKeyFreq)[i] :=
    List.getElem?_eq_getElem hi
  have hmap := @foldl_publishEntry_keyFreqBucketMap _ (⟨[], fun _ => none⟩, 0) hkeys _ _ he
  rw [prefixSumAt, sortedKeyFreqs_publication, List.getElem?_map, he, Option.map_some]
  simp only [toEntry]
  rw [hmap, Option.map_some, Option.getD_some, zero_add, prefixSum, CDFType.freqs,
    sortedKeyFreqs_publication, List.map_map, List.map_take]
  rfl

end Companion

/-! ## Two cdfs of two keys -/

/-- Keys with three accesses and one: the buckets are `75` and `100`. -/
theorem exists_cdf_three_and_one : ∃ cdf,
    getAndSortFreq [("1", 3), ("2", 1)] 2 = some cdf ∧
      cdf.sortedKeyFreqs = [⟨3, "1", 75⟩, ⟨1, "2", 100⟩] := by
  have hcomplete : completeKeyFreq [("1", 3), ("2", 1)] 2 = some [(3, "1"), (1, "2")] := by
    rw [completeKeyFreq, List.map_cons, List.map_cons, List.map_nil, stdSort_pair]
    decide
  have hbuckets : (fillBuckets (totalFreqOf [(3, "1"), (1, "2")]) 0 BucketMap.empty
      [(3, "1"), (1, "2")]).buckets = [(75, [(3, "1")]), (100, [(1, "2")])] := by decide
  refine ⟨_, getAndSortFreq_eq_publication hcomplete (by decide) (by decide), ?_⟩
  rw [sortedKeyFreqs_publication, publication, hbuckets]
  simp [orderedEntries, toEntry]

/-- All accesses to one of two keys: bucket `100` lists the other one first. -/
theorem exists_cdf_three_and_none : ∃ cdf,
    getAndSortFreq [("1", 3)] 2 = some cdf ∧
      cdf.sortedKeyFreqs = [⟨0, "2", 100⟩, ⟨3, "1", 100⟩] := by
  have hcomplete : completeKeyFreq [("1", 3)] 2 = some [(3, "1"), (0, "2")] := by
    rw [completeKeyFreq, List.map_cons, List.map_nil, stdSort_singleton]
    decide
  have hbuckets : (fillBuckets (totalFreqOf [(3, "1"), (0, "2")]) 0 BucketMap.empty
      [(3, "1"), (0, "2")]).buckets = [(100, [(3, "1"), (0, "2")])] := by decide
  have hgreater : greaterNumber (0, "2") (3, "1") = true := by decide
  refine ⟨_, getAndSortFreq_eq_publication hcomplete (by decide) (by decide), ?_⟩
  rw [sortedKeyFreqs_publication, publication, hbuckets]
  simp [orderedEntries, toEntry, stdSort_pair, hgreater]

end TwigKV.AccessRate
