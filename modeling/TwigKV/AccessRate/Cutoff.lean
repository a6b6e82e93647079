import TwigKV.AccessRate.CdfContents
import Mathlib.Data.Set.Basic
import Mathlib.Order.Defs.Unbundled

/-! # The cutoff of a split

The cache policy is not told which keys are local, only the bucket and the number of the key at the
position of the local water mark. The list of a cdf is ordered by ascending bucket and, inside a
bucket, by descending number, strictly unless two keys of a bucket have the same number, such as
`"1"` and `"01"` (`pairwise_before_of_getAndSortFreq`). Without such keys the keys at the positions
before the mark are those of smaller buckets and the larger numbers of its own
(`cutoff_selects_prefix`). The order does not depend on the frequencies, which may be tied, zero or
wrap when they are added. -/

namespace TwigKV.AccessRate

/-! ## Prefixes of ordered lists -/

/-- In a list ordered by an asymmetric relation, the elements before a position are those that stand
before its element in the order. -/
theorem mem_take_iff_of_pairwise {α : Type*} {r : α → α → Prop} [Std.Asymm r] {l : List α}
    (h : l.Pairwise r) {L : ℕ} {x e : α} (he : l[L]? = some e) :
    x ∈ l.take L ↔ x ∈ l ∧ r x e := by
  obtain ⟨hL, rfl⟩ := List.getElem?_eq_some_iff.mp he
  have hsplit : l.take L ++ l[L] :: l.drop (L + 1) = l := by
    rw [← List.drop_eq_getElem_cons hL, List.take_append_drop]
  rw [← hsplit] at h
  obtain ⟨-, hrest, hacross⟩ := List.pairwise_append.mp h
  constructor
  · exact fun hx => ⟨List.mem_of_mem_take hx, hacross x hx _ List.mem_cons_self⟩
  · rintro ⟨hx, hrx⟩
    rw [← hsplit, List.mem_append] at hx
    rcases hx with hbefore | hafter
    · exact hbefore
    · -- the element itself and those after it do not stand before it
      rcases List.mem_cons.mp hafter with rfl | hlater
      · exact absurd hrx (Std.Asymm.asymm _ _ hrx)
      · exact absurd hrx (Std.Asymm.asymm _ _ ((List.pairwise_cons.mp hrest).1 x hlater))

/-! ## The order of the list -/

/-- The order of the list: ascending buckets, descending numbers inside a bucket. -/
def CdfEntry.Before (e e' : CdfEntry) : Prop :=
  e.bucket < e'.bucket ∨ e.bucket = e'.bucket ∧ keyNumber e'.key < keyNumber e.key

instance asymmBefore : Std.Asymm CdfEntry.Before where
  asymm e e' := by
    rintro (hlt | ⟨heq, hnum⟩) (hlt' | ⟨heq', hnum'⟩)
    · exact lt_asymm hlt hlt'
    · exact absurd hlt (by rw [heq']; exact lt_irrefl _)
    · exact absurd hlt' (by rw [heq]; exact lt_irrefl _)
    · exact lt_asymm hnum hnum'

/-- A key that `std::stoi` reads as a natural number has that number, also for `std::stoull`. -/
theorem stoull_of_stoi {text : String} {i : ℕ} (h : stoi text = some (i : ℤ)) :
    stoull text = some (UInt64.ofNat i) ∧ keyNumber text = i ∧ i < 2 ^ 64 := by
  rw [stoi, Option.bind_eq_some_iff] at h
  obtain ⟨⟨negative, magnitude⟩, hscan, hvalue⟩ := h
  rw [stoull, keyNumber, hscan, Option.bind_some, Option.map_some, Option.getD_some]
  cases negative with
  | true =>
      -- a minus sign is read only in front of zero
      simp only [if_true, Option.ite_none_right_eq_some, Option.some.injEq] at hvalue
      obtain ⟨rfl, rfl⟩ : magnitude = 0 ∧ i = 0 := by omega
      exact ⟨rfl, rfl, by decide⟩
  | false =>
      simp only [Bool.false_eq_true, if_false, Option.ite_none_right_eq_some,
        Option.some.injEq] at hvalue
      obtain rfl := Int.natCast_inj.mp hvalue.2
      have hlt : magnitude < 2 ^ 64 := by omega
      refine ⟨?_, rfl, hlt⟩
      simp only [Bool.false_eq_true, if_false, if_pos hlt]

/-- Every key of a completed list has a number. -/
theorem exists_number_of_completeKeyFreq {keyFreq : List (String × UInt64)} {totalKeys : UInt64}
    {sortedKeyFreq : List (UInt64 × String)}
    (h : completeKeyFreq keyFreq totalKeys = some sortedKeyFreq) :
    ∀ kv ∈ sortedKeyFreq, stoull kv.2 = some (UInt64.ofNat (keyNumber kv.2)) ∧
      keyNumber kv.2 < 2 ^ 64 := by
  obtain ⟨accessed, keyMap, -, rfl, hmarked⟩ := exists_of_completeKeyFreq_eq_some h
  intro kv hkv
  rcases List.mem_append.mp hkv with hin | hin
  · obtain ⟨i, hi, -⟩ := hmarked kv hin
    obtain ⟨hstoull, hnumber, hlt⟩ := stoull_of_stoi hi
    rw [hstoull, hnumber]
    exact ⟨rfl, hlt⟩
  · obtain ⟨i, rfl, hi, -⟩ := keyMap_of_mem_missingKeys hin
    have hlt : i < 2 ^ 64 := lt_of_le_of_lt hi totalKeys.toNat_lt
    rw [stoull_toString hlt, keyNumber_toString]
    exact ⟨rfl, hlt⟩

/-- The numbers of a completed list are distinct if those of the vector's keys are. -/
theorem nodup_numbers_of_completeKeyFreq {keyFreq : List (String × UInt64)} {totalKeys : UInt64}
    {sortedKeyFreq : List (UInt64 × String)}
    (hdistinct : (keyFreq.map fun kf => keyNumber kf.1).Nodup)
    (h : completeKeyFreq keyFreq totalKeys = some sortedKeyFreq) :
    (sortedKeyFreq.map fun kv => keyNumber kv.2).Nodup := by
  obtain ⟨accessed, keyMap, haccessed, rfl, hmarked⟩ := exists_of_completeKeyFreq_eq_some h
  have hrange : (List.range' 1 totalKeys.toNat).Nodup := List.nodup_range'
  rw [List.map_append]
  refine List.nodup_append'.mpr ⟨?_, ?_, fun number hnumber hmem => ?_⟩
  · have hperm := (sorted_keys_perm keyFreq).map keyNumber
    rw [List.map_map, List.map_map] at hperm
    rw [haccessed, List.map_take]
    exact (hperm.nodup_iff.mpr hdistinct).sublist (List.take_sublist _ _)
  · have hnumbers : (missingKeys totalKeys keyMap).map (fun kv => keyNumber kv.2)
        = (List.range' 1 totalKeys.toNat).filter fun i => !keyMap i := by
      rw [missingKeys, List.map_map]
      refine (List.map_congr_left fun i _ => ?_).trans (List.map_id _)
      exact keyNumber_toString i
    rw [hnumbers]
    exact hrange.filter _
  · -- a number that is filled in is not marked, that of a key of the vector is
    obtain ⟨kv, hkv, rfl⟩ := List.mem_map.mp hnumber
    obtain ⟨kv', hkv', heq⟩ := List.mem_map.mp hmem
    obtain ⟨i, hi, hmark⟩ := hmarked kv hkv
    obtain ⟨i', rfl, -, hfree⟩ := keyMap_of_mem_missingKeys hkv'
    rw [keyNumber_toString, (stoull_of_stoi hi).2.1] at heq
    rw [← heq, hfree] at hmark
    exact Bool.false_ne_true hmark

/-- No two keys of a bucket have the same number. -/
def DistinctInBuckets (cdf : CDFType) : Prop :=
  cdf.sortedKeyFreqs.Pairwise fun e e' => e.bucket = e'.bucket → keyNumber e.key ≠ keyNumber e'.key

section Order

variable {keyFreq : List (String × UInt64)} {totalKeys : UInt64} {cdf : CDFType}

/-- Keys that are distinct as numbers are distinct in their buckets. -/
theorem distinctInBuckets_of_nodup (hdistinct : (keyFreq.map fun kf => keyNumber kf.1).Nodup)
    (hrun : getAndSortFreq keyFreq totalKeys = some cdf) : DistinctInBuckets cdf := by
  obtain ⟨sortedKeyFreq, hcomplete, rfl⟩ := exists_publication_of_getAndSortFreq hrun
  rw [DistinctInBuckets, sortedKeyFreqs_publication]
  have hperm := (publication_map_snd_perm sortedKeyFreq).map fun kv => keyNumber kv.2
  rw [List.map_map] at hperm
  have hnodup := hperm.nodup_iff.mpr (nodup_numbers_of_completeKeyFreq hdistinct hcomplete)
  have hnumbers : (publication sortedKeyFreq).Pairwise fun e e' =>
      keyNumber e.2.2 ≠ keyNumber e'.2.2 := List.pairwise_map.mp hnodup
  refine List.pairwise_map.mpr (hnumbers.imp ?_)
  exact fun hne _ => hne

/-- **The list of a cdf is strictly ordered.** -/
theorem pairwise_before_of_getAndSortFreq (hdistinct : DistinctInBuckets cdf)
    (hrun : getAndSortFreq keyFreq totalKeys = some cdf) :
    cdf.sortedKeyFreqs.Pairwise CdfEntry.Before := by
  obtain ⟨sortedKeyFreq, hcomplete, rfl⟩ := exists_publication_of_getAndSortFreq hrun
  rw [DistinctInBuckets, sortedKeyFreqs_publication] at hdistinct
  rw [sortedKeyFreqs_publication]
  refine List.pairwise_map.mpr ?_
  have hnumber := exists_number_of_completeKeyFreq hcomplete
  refine ((orderedEntries_pairwise _).and (List.pairwise_map.mp hdistinct)).imp_of_mem
    fun {e e'} he he' hee => ?_
  obtain ⟨⟨hbucket, hinside⟩, hne⟩ := hee
  rcases lt_or_eq_of_le hbucket with hlt | heq
  · exact Or.inl hlt
  · refine Or.inr ⟨heq, lt_of_le_of_ne ?_ (Ne.symm (hne heq))⟩
    obtain ⟨hstoull, hlt⟩ := hnumber _ (snd_mem_of_mem_publication he)
    obtain ⟨hstoull', hlt'⟩ := hnumber _ (snd_mem_of_mem_publication he')
    have hle := hinside heq
    rw [hstoull, hstoull', Option.getD_some, Option.getD_some, UInt64.le_iff_toNat_le,
      UInt64.toNat_ofNat_of_lt' hlt, UInt64.toNat_ofNat_of_lt' hlt'] at hle
    exact hle

/-- The bucket and the number of the entry at a position select the keys at the positions before
it. -/
def CutoffSelects (cdf : CDFType) (L : ℕ) (e : CdfEntry) : Prop :=
  {key | ∃ e' ∈ cdf.sortedKeyFreqs.take L, e'.key = key}
    = {key | ∃ e' ∈ cdf.sortedKeyFreqs, e'.key = key ∧
        (e'.bucket < e.bucket ∨ e'.bucket = e.bucket ∧ keyNumber e.key < keyNumber e'.key)}

/-- **The cutoff selects exactly the chosen keys.** For every vector that `get_and_sort_freq`
accepts and puts no two keys of the same number into one bucket for, and every position of the cdf,
the keys at the positions before it are those in a smaller bucket than the entry there and those in
its bucket with a larger number. -/
theorem cutoff_selects_prefix (hdistinct : DistinctInBuckets cdf)
    (hrun : getAndSortFreq keyFreq totalKeys = some cdf) {L : ℕ} {e : CdfEntry}
    (he : cdf.sortedKeyFreqs[L]? = some e) : CutoffSelects cdf L e := by
  have hpairwise := pairwise_before_of_getAndSortFreq hdistinct hrun
  apply Set.ext
  intro key
  constructor
  · rintro ⟨e', he', hkey⟩
    obtain ⟨hmem, hbefore⟩ := (mem_take_iff_of_pairwise hpairwise he).mp he'
    exact ⟨e', hmem, hkey, hbefore⟩
  · rintro ⟨e', hmem, hkey, hbefore⟩
    exact ⟨e', (mem_take_iff_of_pairwise hpairwise he).mpr ⟨hmem, hbefore⟩, hkey⟩

/-- No less is enough: a cutoff at the second of two keys of a bucket with the same number leaves
out the first. -/
theorem distinctInBuckets_of_cutoffSelects (hkeys : (cdf.sortedKeyFreqs.map CdfEntry.key).Nodup)
    (h : ∀ L e, 1 ≤ L → cdf.sortedKeyFreqs[L]? = some e → CutoffSelects cdf L e) :
    DistinctInBuckets cdf := by
  refine List.pairwise_iff_getElem.mpr fun i j hi hj hij hbucket hnumber => ?_
  have hselects := h j _ (by omega) (List.getElem?_eq_getElem hj)
  rw [CutoffSelects, Set.ext_iff] at hselects
  have hbelow : cdf.sortedKeyFreqs[i] ∈ cdf.sortedKeyFreqs.take j := by
    refine List.mem_take_iff_getElem.mpr ⟨i, by omega, rfl⟩
  obtain ⟨e', hmem, hkey, hbefore⟩ := (hselects _).mp ⟨_, hbelow, rfl⟩
  obtain rfl := List.inj_on_of_nodup_map hkeys hmem (List.getElem_mem hi) hkey
  rcases hbefore with hlt | ⟨-, hlt⟩
  · exact absurd hlt (by rw [hbucket]; exact lt_irrefl _)
  · exact absurd hlt (by rw [hnumber]; exact lt_irrefl _)

end Order

/-- The second position of a cdf of two keys. -/
theorem cutoff_selects_first_key : ∃ cdf, getAndSortFreq [("1", 3), ("2", 1)] 2 = some cdf ∧
    CutoffSelects cdf 1 ⟨1, "2", 100⟩ := by
  obtain ⟨cdf, hrun, hlist⟩ := exists_cdf_three_and_one
  have he : cdf.sortedKeyFreqs[1]? = some ⟨1, "2", 100⟩ := by rw [hlist]; rfl
  have hdistinct : DistinctInBuckets cdf := by
    rw [DistinctInBuckets, hlist]
    decide
  exact ⟨cdf, hrun, cutoff_selects_prefix hdistinct hrun he⟩

/-- Bucket `100` holds the keys `"1"` and `"01"`, one behind the other. -/
theorem exists_cdf_same_number : ∃ cdf, getAndSortFreq [("1", 1), ("01", 0)] 2 = some cdf ∧
    cdf.sortedKeyFreqs = [⟨0, "2", 100⟩, ⟨1, "1", 100⟩, ⟨0, "01", 100⟩] := by
  have hcomplete : completeKeyFreq [("1", 1), ("01", 0)] 2
      = some [(1, "1"), (0, "01"), (0, "2")] := by
    rw [completeKeyFreq, List.map_cons, List.map_cons, List.map_nil, stdSort_pair]
    decide
  have hbuckets : (fillBuckets (totalFreqOf [(1, "1"), (0, "01"), (0, "2")]) 0 BucketMap.empty
      [(1, "1"), (0, "01"), (0, "2")]).buckets
        = [(100, [(1, "1"), (0, "01"), (0, "2")])] := by decide
  have hsort : stdSort greaterNumber [(1, "1"), (0, "01"), (0, "2")]
      = [(0, "2"), (1, "1"), (0, "01")] := by
    have hkeep : greaterNumber (0, "01") (1, "1") = false := by decide
    have hfirst : greaterNumber (0, "2") (1, "1") = true := by decide
    simp [stdSort, List.mergeSort, List.MergeSort.Internal.splitInTwo, hkeep, hfirst]
  refine ⟨_, getAndSortFreq_eq_publication hcomplete (by decide) (by decide), ?_⟩
  rw [sortedKeyFreqs_publication, publication, hbuckets]
  simp [orderedEntries, toEntry, hsort]

/-- The bucket and number of `"01"` do not select `"1"`, which stands before it. -/
theorem cutoff_leaves_out_same_number : ∃ cdf,
    getAndSortFreq [("1", 1), ("01", 0)] 2 = some cdf ∧
      cdf.sortedKeyFreqs[2]? = some ⟨0, "01", 100⟩ ∧ ¬ CutoffSelects cdf 2 ⟨0, "01", 100⟩ := by
  obtain ⟨cdf, hrun, hlist⟩ := exists_cdf_same_number
  refine ⟨cdf, hrun, by rw [hlist]; rfl, fun h => ?_⟩
  rw [CutoffSelects, hlist, Set.ext_iff] at h
  obtain ⟨e, hmem, hkey, hbefore⟩ := (h "1").mp ⟨⟨1, "1", 100⟩, by decide, rfl⟩
  have hnone : ∀ e ∈ [⟨0, "2", 100⟩, ⟨1, "1", 100⟩, (⟨0, "01", 100⟩ : CdfEntry)], e.key = "1" →
      ¬ (e.bucket < 100 ∨ e.bucket = 100 ∧ keyNumber "01" < keyNumber e.key) := by decide
  exact hnone e hmem hkey hbefore

/-! ## The published cutoff -/

/-- Where a local water mark is published, the cutoffs are those of the entry there. -/
theorem exists_entry_of_cutoffs {cdf : CDFType} {cacheSize : UInt64} {ns : Latencies}
    {rate bucket cutoff : UInt64}
    (hlocal : (itrThroughAllThePerfValuesToFindOptimal cdf cacheSize ns).waterMarkLocal ≠ 0)
    (h : (itrThroughAllThePerfValuesToFindOptimal cdf cacheSize ns).cutoffs
      = some (rate, bucket, cutoff)) :
    ∃ e value, cdf.sortedKeyFreqs[(itrThroughAllThePerfValuesToFindOptimal cdf cacheSize
        ns).waterMarkLocal.toNat]? = some e ∧ stoi e.key = some value ∧
      e.freq = rate ∧ e.bucket = bucket ∧ UInt64.ofInt value = cutoff := by
  rw [itrThroughAllThePerfValuesToFindOptimal] at hlocal h ⊢
  simp only at hlocal h ⊢
  rw [publishedCutoffs, if_pos hlocal, Option.bind_eq_some_iff] at h
  obtain ⟨e, he, hcutoffs⟩ := h
  obtain ⟨value, hvalue, heq⟩ := Option.map_eq_some_iff.mp hcutoffs
  rw [Prod.mk.injEq, Prod.mk.injEq] at heq
  exact ⟨e, value, he, hvalue, heq.1, heq.2.1, heq.2.2⟩

section Published

variable {keyFreq : List (String × UInt64)} {totalKeys : UInt64} {cdf : CDFType}

/-- What `std::stoi` reads from a key of a cdf is its number. -/
theorem stoi_key_of_getAndSortFreq (hrun : getAndSortFreq keyFreq totalKeys = some cdf)
    {e : CdfEntry} (he : e ∈ cdf.sortedKeyFreqs) {value : ℤ} (hvalue : stoi e.key = some value) :
    value = keyNumber e.key ∧ keyNumber e.key < 2 ^ 64 := by
  obtain ⟨sortedKeyFreq, hcomplete, rfl⟩ := exists_publication_of_getAndSortFreq hrun
  rw [sortedKeyFreqs_publication] at he
  obtain ⟨entry, hentry, rfl⟩ := List.mem_map.mp he
  have hmem := snd_mem_of_mem_publication hentry
  refine ⟨?_, (exists_number_of_completeKeyFreq hcomplete _ hmem).2⟩
  obtain ⟨accessed, keyMap, -, rfl, hmarked⟩ := exists_of_completeKeyFreq_eq_some hcomplete
  simp only [toEntry] at hvalue ⊢
  rcases List.mem_append.mp hmem with hin | hin
  · obtain ⟨i, hi, -⟩ := hmarked _ hin
    rw [hi, Option.some.injEq] at hvalue
    rw [← hvalue, (stoull_of_stoi hi).2.1]
  · obtain ⟨i, heq, -, -⟩ := keyMap_of_mem_missingKeys hin
    rw [heq] at hvalue ⊢
    rw [keyNumber_toString, (eq_of_stoi_toString hvalue).1]

/-- **The published bucket and key number select the local keys**: those at the positions below the
published local water mark. -/
theorem published_cutoffs_select (hdistinct : DistinctInBuckets cdf)
    (hrun : getAndSortFreq keyFreq totalKeys = some cdf) {cacheSize : UInt64} {ns : Latencies}
    {rate bucket cutoff : UInt64}
    (hlocal : (itrThroughAllThePerfValuesToFindOptimal cdf cacheSize ns).waterMarkLocal ≠ 0)
    (h : (itrThroughAllThePerfValuesToFindOptimal cdf cacheSize ns).cutoffs
      = some (rate, bucket, cutoff)) :
    {key | ∃ e ∈ cdf.sortedKeyFreqs.take (itrThroughAllThePerfValuesToFindOptimal cdf cacheSize
        ns).waterMarkLocal.toNat, e.key = key}
      = {key | ∃ e ∈ cdf.sortedKeyFreqs, e.key = key ∧
          (e.bucket < bucket ∨ e.bucket = bucket ∧ cutoff.toNat < keyNumber e.key)} := by
  have hpairwise := pairwise_before_of_getAndSortFreq hdistinct hrun
  obtain ⟨e, value, he, hvalue, -, rfl, rfl⟩ := exists_entry_of_cutoffs hlocal h
  obtain ⟨hnumber, hlt⟩ := stoi_key_of_getAndSortFreq hrun (List.mem_of_getElem? he) hvalue
  apply Set.ext
  intro key
  rw [hnumber, toNat_ofInt_natCast hlt]
  constructor
  · rintro ⟨e', he', hkey⟩
    obtain ⟨hmem, hbefore⟩ := (mem_take_iff_of_pairwise hpairwise he).mp he'
    exact ⟨e', hmem, hkey, hbefore⟩
  · rintro ⟨e', hmem, hkey, hbefore⟩
    exact ⟨e', (mem_take_iff_of_pairwise hpairwise he).mpr ⟨hmem, hbefore⟩, hkey⟩

end Published

end TwigKV.AccessRate
