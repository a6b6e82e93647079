import TwigKV.AccessRate.OptimalSplit

/-! # What the search evaluates and publishes

The search loop of `itr_through_all_the_perf_values_to_find_optimal` works on unsigned numbers, so
its test for a negative remote part never fires. This file follows the calls of
`calculate_performance` the loop makes:

* **`searchSplitTraced`** — the loop together with the pairs of water marks it evaluates, in order;
  it finds what `searchSplit` finds.
* **`mem_evaluatedSplits_iff`** — the pairs evaluated are exactly those with the local mark inside
  the cdf and `3 * local + remote` equal to the cache size, without wraparound.
* **`search_invariants`** — the pair published is the first best one of them, and the cutoffs are
  read from its position. -/

namespace TwigKV.AccessRate

/-- The search loop with the pairs of water marks that `calculate_performance` has been called
with. -/
def searchSplitTraced (cdf : CDFType) (cacheSize : UInt64) (ns : Latencies) :
    List ℕ → BestSplit → List (UInt64 × UInt64) → BestSplit × List (UInt64 × UInt64)
  | [], best, evaluated => (best, evaluated)
  | i :: rest, best, evaluated =>
      let localMark := UInt64.ofNat i
      let remoteMark := cacheSize - 3 * localMark
      if remoteMark < 0 then (best, evaluated)
      else if localMark > cacheSize / 3 then (best, evaluated)
      else
        let newPerformance := calculatePerformance cdf localMark remoteMark ns
        searchSplitTraced cdf cacheSize ns rest
          (if newPerformance > best.performance then ⟨newPerformance, localMark, remoteMark⟩
          else best)
          (evaluated ++ [(localMark, remoteMark)])

/-- The pairs of water marks that the search evaluates. -/
def evaluatedSplits (cdf : CDFType) (cacheSize : UInt64) (ns : Latencies) :
    List (UInt64 × UInt64) :=
  (searchSplitTraced cdf cacheSize ns (List.range cdf.sortedKeyFreqs.length) ⟨0, 0, cacheSize⟩ []).2

/-- The traced loop is the loop of the search. -/
theorem searchSplitTraced_fst (cdf : CDFType) (cacheSize : UInt64) (ns : Latencies) (l : List ℕ)
    (best : BestSplit) (evaluated : List (UInt64 × UInt64)) :
    (searchSplitTraced cdf cacheSize ns l best evaluated).1
      = searchSplit cdf cacheSize ns l best := by
  induction l generalizing best evaluated with
  | nil => rfl
  | cons i rest ih =>
      rw [searchSplitTraced, searchSplit]
      simp only
      split
      · rfl
      · split
        · rfl
        · exact ih _ _

/-- The pair of water marks with `i` local keys. -/
def splitMarks (cacheSize : UInt64) (i : ℕ) : UInt64 × UInt64 :=
  (UInt64.ofNat i, cacheSize - 3 * UInt64.ofNat i)

/-- Over consecutive positions the loop evaluates those that leave room for three times as many
keys. -/
theorem searchSplitTraced_snd_range' (cdf : CDFType) (cacheSize : UInt64) (ns : Latencies) (n a : ℕ)
    (ha : a ≤ cacheSize.toNat / 3 + 1) (best : BestSplit) (evaluated : List (UInt64 × UInt64)) :
    (searchSplitTraced cdf cacheSize ns (List.range' a n) best evaluated).2
      = evaluated ++ ((List.range' a n).filter fun i => 3 * i ≤ cacheSize.toNat).map
          (splitMarks cacheSize) := by
  induction n generalizing a best evaluated with
  | zero =>
      show evaluated = evaluated ++ []
      rw [List.append_nil]
  | succ n ih =>
      have hlt := cacheSize.toNat_lt
      have hstop := @ofNat_gt_iff cacheSize a (by omega)
      rw [List.range'_succ, searchSplitTraced]
      simp only
      rw [if_neg UInt64.not_lt_zero]
      by_cases hroom : 3 * a ≤ cacheSize.toNat
      · rw [if_neg fun h => hstop.mp h hroom, List.filter_cons_of_pos (by simpa using hroom),
          ih (a + 1) (by omega), List.map_cons, List.append_assoc]
        rfl
      · -- the loop has stopped, and no later position leaves room either
        have hnone : (List.range' (a + 1) n).filter (fun i => 3 * i ≤ cacheSize.toNat) = [] := by
          apply List.filter_eq_nil_iff.mpr
          intro i hi
          have hbound := (List.mem_range'_1.mp hi).1
          simp only [decide_eq_true_eq]
          omega
        rw [if_pos (hstop.mpr hroom), List.filter_cons_of_neg (by simpa using hroom), hnone,
          List.map_nil, List.append_nil]

/-- The pairs evaluated are those of the candidates. -/
theorem mem_evaluatedSplits {cdf : CDFType} {cacheSize : UInt64} {ns : Latencies}
    {marks : UInt64 × UInt64} : marks ∈ evaluatedSplits cdf cacheSize ns ↔
      ∃ i, IsCandidate cdf cacheSize i ∧ splitMarks cacheSize i = marks := by
  rw [evaluatedSplits, List.range_eq_range',
    searchSplitTraced_snd_range' cdf cacheSize ns _ 0 (Nat.zero_le _), List.nil_append,
    List.mem_map]
  apply exists_congr
  intro i
  rw [List.mem_filter, List.mem_range'_1, decide_eq_true_eq, IsCandidate]
  have hrange : 0 ≤ i ∧ i < 0 + cdf.sortedKeyFreqs.length ↔ i < cdf.sortedKeyFreqs.length := by
    omega
  rw [hrange]

/-- The pairs evaluated are exactly those with the local mark inside the cdf and three times it and
the remote mark adding up to the cache size. -/
theorem mem_evaluatedSplits_iff {cdf : CDFType} {cacheSize : UInt64} {ns : Latencies}
    {marks : UInt64 × UInt64} : marks ∈ evaluatedSplits cdf cacheSize ns ↔
      marks.1.toNat < cdf.sortedKeyFreqs.length ∧
        3 * marks.1.toNat + marks.2.toNat = cacheSize.toNat := by
  rw [mem_evaluatedSplits]
  constructor
  · rintro ⟨i, hi, rfl⟩
    obtain ⟨hlocal, hremote⟩ := hi.toNat_ofNat
    have hroom := hi.2
    rw [splitMarks, hlocal, hremote]
    exact ⟨hi.1, by omega⟩
  · rintro ⟨hinside, hsum⟩
    have hcandidate : IsCandidate cdf cacheSize marks.1.toNat := ⟨hinside, by omega⟩
    refine ⟨marks.1.toNat, hcandidate, ?_⟩
    obtain ⟨hlocal, hremote⟩ := hcandidate.toNat_ofNat
    apply Prod.ext
    · exact UInt64.toNat_inj.mp hlocal
    · apply UInt64.toNat_inj.mp
      show (cacheSize - 3 * UInt64.ofNat marks.1.toNat).toNat = marks.2.toNat
      rw [hremote]
      omega

/-! ## The pair published -/

/-- The performance the code computes for a pair of water marks. -/
def performanceOf (cdf : CDFType) (ns : Latencies) (marks : UInt64 × UInt64) : UInt64 :=
  calculatePerformance cdf marks.1 marks.2 ns

/-- The water marks that the search publishes. -/
def publishedMarks (cdf : CDFType) (cacheSize : UInt64) (ns : Latencies) : UInt64 × UInt64 :=
  let published := itrThroughAllThePerfValuesToFindOptimal cdf cacheSize ns
  (published.waterMarkLocal, published.waterMarkRemote)

/-- **The invariants of the search.** -/
structure SearchInvariants (cdf : CDFType) (cacheSize : UInt64) (ns : Latencies) : Prop where
  /-- The loop whose calls are followed is the one whose result is published. -/
  traced : (searchSplitTraced cdf cacheSize ns (List.range cdf.sortedKeyFreqs.length)
    ⟨0, 0, cacheSize⟩ []).1 = findOptimalSplit cdf cacheSize ns
  /-- Only pairs inside the cdf that add up to the cache size are evaluated. -/
  evaluated_only : ∀ marks ∈ evaluatedSplits cdf cacheSize ns,
    marks.1.toNat < cdf.sortedKeyFreqs.length ∧
      3 * marks.1.toNat + marks.2.toNat = cacheSize.toNat
  /-- Every such pair with a local mark up to a third of the cache size is. -/
  evaluated_all : ∀ marks : UInt64 × UInt64, marks.1.toNat < cdf.sortedKeyFreqs.length →
    3 * marks.1.toNat + marks.2.toNat = cacheSize.toNat → marks.1 ≤ cacheSize / 3 →
    marks ∈ evaluatedSplits cdf cacheSize ns
  /-- If some pair scores, the pair published is the one of largest performance and, among those,
  smallest local mark. -/
  publishes_first_best :
    (∃ marks ∈ evaluatedSplits cdf cacheSize ns, 0 < performanceOf cdf ns marks) →
    publishedMarks cdf cacheSize ns ∈ evaluatedSplits cdf cacheSize ns ∧
      (∀ marks ∈ evaluatedSplits cdf cacheSize ns,
        performanceOf cdf ns marks ≤ performanceOf cdf ns (publishedMarks cdf cacheSize ns)) ∧
      ∀ marks ∈ evaluatedSplits cdf cacheSize ns,
        marks.1 < (publishedMarks cdf cacheSize ns).1 →
        performanceOf cdf ns marks < performanceOf cdf ns (publishedMarks cdf cacheSize ns)
  /-- If none does, all of the cache is remote. -/
  publishes_remote :
    (¬ ∃ marks ∈ evaluatedSplits cdf cacheSize ns, 0 < performanceOf cdf ns marks) →
    publishedMarks cdf cacheSize ns = (0, cacheSize)
  /-- With local keys the cutoffs are those of the entry at the local mark. -/
  cutoffs_at_mark : (publishedMarks cdf cacheSize ns).1 ≠ 0 →
    ∃ e, cdf.sortedKeyFreqs[(publishedMarks cdf cacheSize ns).1.toNat]? = some e ∧
      (itrThroughAllThePerfValuesToFindOptimal cdf cacheSize ns).cutoffs
        = (stoi e.key).map fun cutoff => (e.freq, e.bucket, UInt64.ofInt cutoff)
  /-- Without local keys they are all ones. -/
  cutoffs_sentinel : (publishedMarks cdf cacheSize ns).1 = 0 →
    (itrThroughAllThePerfValuesToFindOptimal cdf cacheSize ns).cutoffs = some (-1, -1, -1)

/-- The pair published is the one of the first candidate of largest performance. -/
theorem publishedMarks_eq {cdf : CDFType} (hne : 1 ≤ cdf.sortedKeyFreqs.length)
    (cacheSize : UInt64) (ns : Latencies) :
    ∃ i, publishedMarks cdf cacheSize ns = splitMarks cacheSize i ∧
      IsFirstMaximum (candidatePerformance cdf cacheSize ns) (IsCandidate cdf cacheSize) i := by
  obtain ⟨i, hsplit, hfirst⟩ := findOptimalSplit_eq hne cacheSize ns
  refine ⟨i, ?_, hfirst⟩
  rw [publishedMarks, itrThroughAllThePerfValuesToFindOptimal, hsplit]
  rfl

/-- An empty cdf publishes the initial pair. -/
theorem publishedMarks_of_empty {cdf : CDFType} (hempty : cdf.sortedKeyFreqs = [])
    (cacheSize : UInt64) (ns : Latencies) : publishedMarks cdf cacheSize ns = (0, cacheSize) := by
  rw [publishedMarks, itrThroughAllThePerfValuesToFindOptimal, findOptimalSplit, hempty]
  rfl

/-- A local mark other than `0` lies inside the cdf. -/
theorem publishedMarks_lt {cdf : CDFType} {cacheSize : UInt64} {ns : Latencies}
    (h : (publishedMarks cdf cacheSize ns).1 ≠ 0) :
    (publishedMarks cdf cacheSize ns).1.toNat < cdf.sortedKeyFreqs.length := by
  cases hlist : cdf.sortedKeyFreqs with
  | nil =>
    rw [publishedMarks_of_empty hlist] at h
    exact absurd rfl h
  | cons e rest =>
    have hne : 1 ≤ cdf.sortedKeyFreqs.length := by
      rw [hlist]
      exact Nat.succ_le_succ (Nat.zero_le _)
    obtain ⟨i, hmarks, hfirst⟩ := publishedMarks_eq hne cacheSize ns
    rw [hmarks, splitMarks, hfirst.mem.toNat_ofNat.1, ← hlist]
    exact hfirst.mem.1

/-- **The search keeps its invariants**, for every cdf, cache size and latencies: it evaluates
exactly the splits of the cache that lie inside the cdf, publishes the first best one, or the cache
as all remote when none scores, and reads the cutoffs at the position published. -/
theorem search_invariants (cdf : CDFType) (cacheSize : UInt64) (ns : Latencies) :
    SearchInvariants cdf cacheSize ns where
  traced := searchSplitTraced_fst cdf cacheSize ns _ _ _
  evaluated_only := fun _ hmarks => mem_evaluatedSplits_iff.mp hmarks
  evaluated_all := fun _ hinside hsum _ => mem_evaluatedSplits_iff.mpr ⟨hinside, hsum⟩
  publishes_first_best := by
    rintro ⟨marks, hmarks, -⟩
    have hne : 1 ≤ cdf.sortedKeyFreqs.length :=
      lt_of_le_of_lt (Nat.zero_le _) (mem_evaluatedSplits_iff.mp hmarks).1
    obtain ⟨i, hpublished, hfirst⟩ := publishedMarks_eq hne cacheSize ns
    rw [hpublished]
    refine ⟨mem_evaluatedSplits.mpr ⟨i, hfirst.mem, rfl⟩, ?_, ?_⟩
    · intro other hother
      obtain ⟨j, hj, rfl⟩ := mem_evaluatedSplits.mp hother
      exact hfirst.max j hj
    · intro other hother hbefore
      obtain ⟨j, hj, rfl⟩ := mem_evaluatedSplits.mp hother
      apply hfirst.first j hj
      rw [splitMarks, splitMarks, UInt64.lt_iff_toNat_lt, hj.toNat_ofNat.1,
        hfirst.mem.toNat_ofNat.1] at hbefore
      exact hbefore
  publishes_remote := by
    intro hnone
    cases hlist : cdf.sortedKeyFreqs with
    | nil => exact publishedMarks_of_empty hlist cacheSize ns
    | cons e rest =>
      have hne : 1 ≤ cdf.sortedKeyFreqs.length := by
        rw [hlist]
        exact Nat.succ_le_succ (Nat.zero_le _)
      obtain ⟨i, hpublished, hfirst⟩ := publishedMarks_eq hne cacheSize ns
      have hzero : ¬ 0 < candidatePerformance cdf cacheSize ns i := by
        intro hpos
        exact hnone ⟨splitMarks cacheSize i, mem_evaluatedSplits.mpr ⟨i, hfirst.mem, rfl⟩, hpos⟩
      -- the first candidate scores no less, so it is the first best one
      have hfront : i = 0 := by
        by_contra hi
        have hcandidate : IsCandidate cdf cacheSize 0 := ⟨hne, Nat.zero_le _⟩
        have hless := hfirst.first 0 hcandidate (Nat.pos_of_ne_zero hi)
        exact hzero (lt_of_le_of_lt (UInt64.zero_le) hless)
      rw [hpublished, hfront, splitMarks]
      simp
  cutoffs_at_mark := by
    intro hlocal
    have hlt := publishedMarks_lt hlocal
    refine ⟨_, List.getElem?_eq_getElem hlt, ?_⟩
    show (if (publishedMarks cdf cacheSize ns).1 ≠ 0 then _ else _) = _
    rw [if_pos hlocal, show (findOptimalSplit cdf cacheSize ns).waterMarkLocal
      = (publishedMarks cdf cacheSize ns).1 from rfl, List.getElem?_eq_getElem hlt]
    rfl
  cutoffs_sentinel := by
    intro hlocal
    show (if (publishedMarks cdf cacheSize ns).1 ≠ 0 then _ else _) = _
    rw [if_neg (not_not_intro hlocal)]

end TwigKV.AccessRate
