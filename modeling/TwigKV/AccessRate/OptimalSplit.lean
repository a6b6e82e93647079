import TwigKV.AccessRate.Performance
import TwigKV.Foundations.FirstMaximum
import Mathlib.Data.List.Range
import Mathlib.Tactic.Ring

/-! # When the published split is optimal

The search maximises a reciprocal in 64-bit arithmetic, not the latency itself. It publishes the
first candidate of largest `calculatePerformance` (`findOptimalSplit_eq`). The reciprocal is rounded
down, maps latency `0` to `0` and is taken of a sum that may wrap, so the published split has least
exact latency exactly when these reciprocals of the latencies modulo `2 ^ 64` tell a least latency
from the other candidates (`optimalSplit_iff`). -/

namespace TwigKV.AccessRate

/-! ## The claim's vocabulary -/

/-- The candidate numbers of local keys: positions of the cdf that leave room for three times as
many. -/
def IsCandidate (cdf : CDFType) (cacheSize : UInt64) (i : ℕ) : Prop :=
  i < cdf.sortedKeyFreqs.length ∧ 3 * i ≤ cacheSize.toNat

/-- The accesses between two positions, as an exact integer. -/
def exactAccesses (cdf : CDFType) (start stop : ℕ) : ℤ :=
  (prefixSumAt cdf (clampIndex cdf stop)).toNat - (prefixSumAt cdf (clampIndex cdf start)).toNat

/-- `local_latency + remote_latency + disk_latency` of `calculate_performance`, in exact integers.
Integer division truncates. -/
def exactLatency (cdf : CDFType) (waterMarkLocal waterMarkRemote : ℕ) (ns : Latencies) : ℤ :=
  let totalLocalAccesses := exactAccesses cdf 0 waterMarkLocal
  let totalRemoteAccesses := exactAccesses cdf waterMarkLocal (waterMarkLocal + waterMarkRemote)
  let totalDiskAccesses :=
    exactAccesses cdf (waterMarkRemote + waterMarkLocal) cdf.sortedKeyFreqs.length
  totalLocalAccesses * ns.cacheNsAvg.toNat +
    ((2 * totalRemoteAccesses).tdiv 3 * ns.rdmaNsAvg.toNat +
      totalRemoteAccesses.tdiv 3 * ns.cacheNsAvg.toNat) +
    totalDiskAccesses * ns.diskNsAvg.toNat

/-- The exact latency of the candidate with `i` local keys. -/
def candidateLatency (cdf : CDFType) (cacheSize : UInt64) (ns : Latencies) (i : ℕ) : ℤ :=
  exactLatency cdf i (cacheSize.toNat - 3 * i) ns

/-- The performance the code computes for the candidate with `i` local keys. -/
def candidatePerformance (cdf : CDFType) (cacheSize : UInt64) (ns : Latencies) (i : ℕ) : UInt64 :=
  calculatePerformance cdf (UInt64.ofNat i) (cacheSize - 3 * UInt64.ofNat i) ns

/-- The accesses between two positions, as 64 bits hold them. -/
def wrappedAccesses (cdf : CDFType) (start stop : ℕ) : ℕ :=
  (exactAccesses cdf start stop % 2 ^ 64).toNat

/-- The latency of the candidate with `i` local keys, as 64 bits hold it: twice the remote accesses
are reduced modulo `2 ^ 64` before they are divided, and the sum is. -/
def wrappedLatency (cdf : CDFType) (cacheSize : UInt64) (ns : Latencies) (i : ℕ) : ℕ :=
  let waterMarkRemote := cacheSize.toNat - 3 * i
  let totalLocalAccesses := wrappedAccesses cdf 0 i
  let totalRemoteAccesses := wrappedAccesses cdf i (i + waterMarkRemote)
  let totalDiskAccesses := wrappedAccesses cdf (waterMarkRemote + i) cdf.sortedKeyFreqs.length
  (totalLocalAccesses * ns.cacheNsAvg.toNat +
    (2 * totalRemoteAccesses % 2 ^ 64 / 3 * ns.rdmaNsAvg.toNat +
      totalRemoteAccesses / 3 * ns.cacheNsAvg.toNat) +
    totalDiskAccesses * ns.diskNsAvg.toNat) % 2 ^ 64

/-- **The published water marks are optimal**: they are a candidate split and no candidate has a
smaller exact latency. -/
def PublishesOptimalSplit (cdf : CDFType) (cacheSize : UInt64) (ns : Latencies) : Prop :=
  let published := itrThroughAllThePerfValuesToFindOptimal cdf cacheSize ns
  IsCandidate cdf cacheSize published.waterMarkLocal.toNat ∧
    published.waterMarkRemote.toNat = cacheSize.toNat - 3 * published.waterMarkLocal.toNat ∧
    ∀ i, IsCandidate cdf cacheSize i →
      exactLatency cdf published.waterMarkLocal.toNat published.waterMarkRemote.toNat ns
        ≤ candidateLatency cdf cacheSize ns i

/-! ## What the search publishes -/

/-- A candidate number of local keys fits 64 bits, and so does three times it. -/
theorem IsCandidate.toNat_ofNat {cdf : CDFType} {cacheSize : UInt64} {i : ℕ}
    (h : IsCandidate cdf cacheSize i) :
    (UInt64.ofNat i).toNat = i ∧ (cacheSize - 3 * UInt64.ofNat i).toNat
      = cacheSize.toNat - 3 * i := by
  have hlt := cacheSize.toNat_lt
  have h3 := h.2
  have hi : (UInt64.ofNat i).toNat = i := UInt64.toNat_ofNat_of_lt' (by
    have : UInt64.size = 2 ^ 64 := rfl
    omega)
  have hthree : (3 : UInt64).toNat = 3 := rfl
  have hmul : (3 * UInt64.ofNat i).toNat = 3 * i := by
    rw [toNat_mul_of_lt (by rw [hthree, hi]; omega), hthree, hi]
  refine ⟨hi, ?_⟩
  rw [UInt64.toNat_sub_of_le _ _ (UInt64.le_iff_toNat_le.mpr (by rw [hmul]; exact h3)), hmul]

/-- The loop stops at the first position without room for three times as many keys. -/
theorem ofNat_gt_iff {cacheSize : UInt64} {i : ℕ} (hlt : i < 2 ^ 64) :
    UInt64.ofNat i > cacheSize / 3 ↔ ¬ 3 * i ≤ cacheSize.toNat := by
  have hthree : (3 : UInt64).toNat = 3 := rfl
  have hi : (UInt64.ofNat i).toNat = i := UInt64.toNat_ofNat_of_lt' hlt
  rw [gt_iff_lt, UInt64.lt_iff_toNat_lt, UInt64.toNat_div, hi, hthree]
  omega

/-- The split with `i` local keys, as the search keeps it. -/
def splitOf (cdf : CDFType) (cacheSize : UInt64) (ns : Latencies) (i : ℕ) : BestSplit :=
  ⟨candidatePerformance cdf cacheSize ns i, UInt64.ofNat i, cacheSize - 3 * UInt64.ofNat i⟩

/-- Over consecutive positions the search is the running maximum of the performances. -/
theorem searchSplit_range' (cdf : CDFType) (cacheSize : UInt64) (ns : Latencies) (n a b : ℕ)
    (ha : a ≤ cacheSize.toNat / 3 + 1) :
    searchSplit cdf cacheSize ns (List.range' a n) (splitOf cdf cacheSize ns b)
      = splitOf cdf cacheSize ns (firstMaximum (candidatePerformance cdf cacheSize ns) b
          ((List.range' a n).filter fun i => 3 * i ≤ cacheSize.toNat)) := by
  induction n generalizing a b with
  | zero => rfl
  | succ n ih =>
      have hlt := cacheSize.toNat_lt
      have hneg : ¬ cacheSize - 3 * UInt64.ofNat a < 0 := UInt64.not_lt_zero
      have hstop := @ofNat_gt_iff cacheSize a (by omega)
      rw [List.range'_succ, searchSplit]
      simp only
      rw [if_neg hneg]
      by_cases hroom : 3 * a ≤ cacheSize.toNat
      · rw [if_neg (fun h => hstop.mp h hroom), List.filter_cons_of_pos (by simpa using hroom),
          firstMaximum]
        -- the state kept is the one of the better position
        have hkeep : (if calculatePerformance cdf (UInt64.ofNat a)
              (cacheSize - 3 * UInt64.ofNat a) ns > (splitOf cdf cacheSize ns b).performance
            then ⟨calculatePerformance cdf (UInt64.ofNat a) (cacheSize - 3 * UInt64.ofNat a) ns,
              UInt64.ofNat a, cacheSize - 3 * UInt64.ofNat a⟩ else splitOf cdf cacheSize ns b)
            = splitOf cdf cacheSize ns (if candidatePerformance cdf cacheSize ns b
              < candidatePerformance cdf cacheSize ns a then a else b) := by
          rw [apply_ite (splitOf cdf cacheSize ns)]
          rfl
        rw [hkeep]
        exact ih (a + 1) _ (by omega)
      · have hnone : (List.range' (a + 1) n).filter (fun i => 3 * i ≤ cacheSize.toNat) = [] := by
          refine List.filter_eq_nil_iff.mpr fun i hi => ?_
          have := (List.mem_range'_1.mp hi).1
          simp only [decide_eq_true_eq]
          omega
        rw [if_pos (hstop.mpr hroom), List.filter_cons_of_neg (by simpa using hroom), hnone,
          firstMaximum]

/-- The candidates after `0`, ascending. -/
def laterCandidates (cdf : CDFType) (cacheSize : UInt64) : List ℕ :=
  (List.range' 1 (cdf.sortedKeyFreqs.length - 1)).filter fun i => 3 * i ≤ cacheSize.toNat

/-- The running maximum from `0` over the later candidates is the first maximum among all. -/
theorem isFirstMaximum_candidates {β : Type*} [LinearOrder β] (score : ℕ → β) {cdf : CDFType}
    (hne : 1 ≤ cdf.sortedKeyFreqs.length) (cacheSize : UInt64) :
    IsFirstMaximum score (IsCandidate cdf cacheSize)
      (firstMaximum score 0 (laterCandidates cdf cacheSize)) := by
  have hasc : (0 :: laterCandidates cdf cacheSize).Pairwise (· < ·) := by
    have hrange : (List.range' 1 (cdf.sortedKeyFreqs.length - 1)).Pairwise (· < ·) :=
      List.pairwise_lt_range'
    refine List.pairwise_cons.mpr ⟨fun i hi => ?_, hrange.filter _⟩
    have := (List.mem_range'_1.mp (List.mem_filter.mp hi).1).1
    omega
  have hmem : ∀ i, i ∈ 0 :: laterCandidates cdf cacheSize ↔ IsCandidate cdf cacheSize i := by
    intro i
    rw [IsCandidate, List.mem_cons, laterCandidates, List.mem_filter, List.mem_range'_1,
      decide_eq_true_eq]
    omega
  obtain ⟨h1, h2, h3⟩ := firstMaximum_spec score hasc
  exact ⟨(hmem _).mp h1, fun j hj => h2 j ((hmem j).mpr hj), fun j hj => h3 j ((hmem j).mpr hj)⟩

/-- The search keeps the first candidate of largest performance. -/
theorem findOptimalSplit_eq {cdf : CDFType} (hne : 1 ≤ cdf.sortedKeyFreqs.length)
    (cacheSize : UInt64) (ns : Latencies) :
    ∃ i, findOptimalSplit cdf cacheSize ns = splitOf cdf cacheSize ns i ∧
      IsFirstMaximum (candidatePerformance cdf cacheSize ns) (IsCandidate cdf cacheSize) i := by
  obtain ⟨n, hn⟩ := Nat.exists_eq_add_of_le' hne
  -- position 0 is always tried, and the initial state stands for it
  have hfirst : findOptimalSplit cdf cacheSize ns
      = searchSplit cdf cacheSize ns (List.range' 1 n) (splitOf cdf cacheSize ns 0) := by
    have hzero : cacheSize - 3 * UInt64.ofNat 0 = cacheSize := by simp
    have hbest : (if candidatePerformance cdf cacheSize ns 0 > 0
          then ⟨candidatePerformance cdf cacheSize ns 0, UInt64.ofNat 0,
            cacheSize - 3 * UInt64.ofNat 0⟩
          else ⟨0, 0, cacheSize⟩) = splitOf cdf cacheSize ns 0 := by
      split_ifs with hpos
      · rfl
      · rw [splitOf, hzero, UInt64.le_zero_iff.mp (not_lt.mp hpos)]
        rfl
    rw [findOptimalSplit, hn, List.range_eq_range', List.range'_succ, searchSplit]
    simp only
    rw [if_neg UInt64.not_lt_zero, if_neg (by simp), ← hbest]
    rfl
  refine ⟨_, hfirst.trans (searchSplit_range' cdf cacheSize ns n 1 0 (by omega)), ?_⟩
  have hspec := isFirstMaximum_candidates (candidatePerformance cdf cacheSize ns) hne cacheSize
  rwa [laterCandidates, hn, Nat.add_sub_cancel] at hspec

/-- The performances single out a candidate of least exact latency: it scores more than every
smaller candidate and no less than every larger one. -/
def PerformanceSinglesOutLeast (cdf : CDFType) (cacheSize : UInt64) (ns : Latencies) : Prop :=
  ∃ i, IsCandidate cdf cacheSize i ∧
    (∀ j, IsCandidate cdf cacheSize j →
      candidateLatency cdf cacheSize ns i ≤ candidateLatency cdf cacheSize ns j) ∧
    (∀ j, IsCandidate cdf cacheSize j → j < i →
      candidatePerformance cdf cacheSize ns j < candidatePerformance cdf cacheSize ns i) ∧
    ∀ j, IsCandidate cdf cacheSize j → i < j →
      candidatePerformance cdf cacheSize ns j ≤ candidatePerformance cdf cacheSize ns i

/-- The published split is optimal exactly when the performances single out a least latency. -/
theorem publishesOptimalSplit_iff_singlesOutLeast {cdf : CDFType}
    (hne : 1 ≤ cdf.sortedKeyFreqs.length) (cacheSize : UInt64) (ns : Latencies) :
    PublishesOptimalSplit cdf cacheSize ns ↔ PerformanceSinglesOutLeast cdf cacheSize ns := by
  obtain ⟨i, hsplit, hfirst⟩ := findOptimalSplit_eq hne cacheSize ns
  obtain ⟨hlocal, hremote⟩ := hfirst.mem.toNat_ofNat
  have hpublished : PublishesOptimalSplit cdf cacheSize ns ↔
      ∀ j, IsCandidate cdf cacheSize j →
        candidateLatency cdf cacheSize ns i ≤ candidateLatency cdf cacheSize ns j := by
    rw [PublishesOptimalSplit, itrThroughAllThePerfValuesToFindOptimal, hsplit]
    simp only [splitOf, hlocal, hremote]
    exact ⟨fun h => h.2.2, fun h => ⟨hfirst.mem, trivial, h⟩⟩
  rw [hpublished]
  constructor
  · exact fun h => ⟨i, hfirst.mem, h, hfirst.first, fun j hj _ => hfirst.max j hj⟩
  · rintro ⟨i', hi', hleast, hbefore, hafter⟩
    have hfirst' : IsFirstMaximum (candidatePerformance cdf cacheSize ns)
        (IsCandidate cdf cacheSize) i' := by
      refine ⟨hi', fun j hj => ?_, hbefore⟩
      rcases lt_trichotomy j i' with hlt | heq | hgt
      · exact le_of_lt (hbefore j hj hlt)
      · rw [heq]
      · exact hafter j hj hgt
    rw [hfirst.unique hfirst']
    exact hleast

/-! ## In latencies modulo `2 ^ 64` -/

/-- What 64 bits hold of the accesses between two positions. -/
theorem toNat_getSumFreqTillIndex_wrapped (cdf : CDFType) (start stop : ℕ) :
    (getSumFreqTillIndex cdf start stop).toNat = wrappedAccesses cdf start stop := by
  rw [getSumFreqTillIndex, wrappedAccesses, exactAccesses, UInt64.toNat_sub]
  have hstop := (prefixSumAt cdf (clampIndex cdf stop)).toNat_lt
  have hstart := (prefixSumAt cdf (clampIndex cdf start)).toNat_lt
  omega

/-- What 64 bits hold of the latency of a candidate. -/
theorem toNat_totalLatency_wrapped {cdf : CDFType} {cacheSize : UInt64} {i : ℕ}
    (hi : IsCandidate cdf cacheSize i) (ns : Latencies) :
    (totalLatency cdf (UInt64.ofNat i) (cacheSize - 3 * UInt64.ofNat i) ns).toNat
      = wrappedLatency cdf cacheSize ns i := by
  obtain ⟨hlocal, hremote⟩ := hi.toNat_ofNat
  have hlt := cacheSize.toNat_lt
  have hroom := hi.2
  have hsum : (UInt64.ofNat i + (cacheSize - 3 * UInt64.ofNat i)).toNat
      = i + (cacheSize.toNat - 3 * i) := by
    rw [toNat_add_of_lt (by rw [hlocal, hremote]; omega), hlocal, hremote]
  have hsum' : (cacheSize - 3 * UInt64.ofNat i + UInt64.ofNat i).toNat
      = cacheSize.toNat - 3 * i + i := by
    rw [toNat_add_of_lt (by rw [hlocal, hremote]; omega), hlocal, hremote]
  have htwo : (2 : UInt64).toNat = 2 := rfl
  have hthree : (3 : UInt64).toNat = 3 := rfl
  rw [totalLatency, wrappedLatency]
  simp only [hlocal, hsum, hsum', UInt64.toNat_add, UInt64.toNat_mul, UInt64.toNat_div, htwo,
    hthree, toNat_getSumFreqTillIndex_wrapped, Nat.mod_add_mod, Nat.add_mod_mod]

/-- The performance of a candidate is the reciprocal of that latency, rounded down, and `0` for
`0`. -/
theorem toNat_candidatePerformance {cdf : CDFType} {cacheSize : UInt64} {i : ℕ}
    (hi : IsCandidate cdf cacheSize i) (ns : Latencies) :
    (candidatePerformance cdf cacheSize ns i).toNat
      = (2 ^ 64 - 1) / wrappedLatency cdf cacheSize ns i := by
  have hlat := toNat_totalLatency_wrapped hi ns
  have hmax : (-1 : UInt64).toNat = 2 ^ 64 - 1 := rfl
  rw [candidatePerformance, calculatePerformance]
  split_ifs with hzero
  · rw [UInt64.toNat_div, hmax, hlat]
  · rw [not_not] at hzero
    rw [← hlat, hzero]
    rfl

/-- The reciprocals of the latencies modulo `2 ^ 64`, rounded down and `0` for `0`, tell a candidate
of least exact latency from the others: a smaller candidate has a smaller one, a larger candidate no
larger one. -/
def ReciprocalsSeparateLeast (cdf : CDFType) (cacheSize : UInt64) (ns : Latencies) : Prop :=
  ∃ i, IsCandidate cdf cacheSize i ∧
    (∀ j, IsCandidate cdf cacheSize j →
      candidateLatency cdf cacheSize ns i ≤ candidateLatency cdf cacheSize ns j) ∧
    (∀ j, IsCandidate cdf cacheSize j → j < i →
      (2 ^ 64 - 1) / wrappedLatency cdf cacheSize ns j
        < (2 ^ 64 - 1) / wrappedLatency cdf cacheSize ns i) ∧
    ∀ j, IsCandidate cdf cacheSize j → i < j →
      (2 ^ 64 - 1) / wrappedLatency cdf cacheSize ns j
        ≤ (2 ^ 64 - 1) / wrappedLatency cdf cacheSize ns i

/-- The performances single out a least latency exactly when the reciprocals do. -/
theorem singlesOutLeast_iff_reciprocalsSeparate {cdf : CDFType} {cacheSize : UInt64}
    {ns : Latencies} : PerformanceSinglesOutLeast cdf cacheSize ns ↔
      ReciprocalsSeparateLeast cdf cacheSize ns := by
  rw [PerformanceSinglesOutLeast, ReciprocalsSeparateLeast]
  refine exists_congr fun i => and_congr_right fun hi => and_congr_right fun _ => ?_
  refine and_congr (forall_congr' fun j => forall_congr' fun hj => ?_)
    (forall_congr' fun j => forall_congr' fun hj => ?_)
  · rw [UInt64.lt_iff_toNat_lt, toNat_candidatePerformance hi, toNat_candidatePerformance hj]
  · rw [UInt64.le_iff_toNat_le, toNat_candidatePerformance hi, toNat_candidatePerformance hj]

/-! ## Without wraparound -/

/-- Nothing wraps in the latency of a candidate: the access counts are not negative, and twice the
remote accesses and the latency fit 64 bits. -/
structure NoWraparound (cdf : CDFType) (cacheSize : UInt64) (ns : Latencies) (i : ℕ) : Prop where
  /-- Local accesses are not negative. -/
  local_nonneg : 0 ≤ exactAccesses cdf 0 i
  /-- Remote accesses are not negative. -/
  remote_nonneg : 0 ≤ exactAccesses cdf i (i + (cacheSize.toNat - 3 * i))
  /-- Disk accesses are not negative. -/
  disk_nonneg :
    0 ≤ exactAccesses cdf (cacheSize.toNat - 3 * i + i) cdf.sortedKeyFreqs.length
  /-- Twice the remote accesses fit. -/
  remote_fits : 2 * exactAccesses cdf i (i + (cacheSize.toNat - 3 * i)) < 2 ^ 64
  /-- The latency fits. -/
  latency_fits : candidateLatency cdf cacheSize ns i < 2 ^ 64

/-- A non-negative count of accesses does not wrap. -/
theorem toNat_getSumFreqTillIndex {cdf : CDFType} {start stop : ℕ}
    (h : 0 ≤ exactAccesses cdf start stop) :
    ((getSumFreqTillIndex cdf start stop).toNat : ℤ) = exactAccesses cdf start stop := by
  rw [exactAccesses] at h ⊢
  rw [getSumFreqTillIndex, UInt64.toNat_sub_of_le _ _ (UInt64.le_iff_toNat_le.mpr (by omega))]
  omega

/-- The sum of the three latencies in 64-bit arithmetic is the exact one when that fits. -/
theorem toNat_latency_sum {a r d c m k : UInt64}
    (htwice : 2 * r.toNat < 2 ^ 64)
    (hfit : a.toNat * c.toNat + (2 * r.toNat / 3 * m.toNat + r.toNat / 3 * c.toNat)
      + d.toNat * k.toNat < 2 ^ 64) :
    (a * c + (2 * r / 3 * m + r / 3 * c) + d * k).toNat
      = a.toNat * c.toNat + (2 * r.toNat / 3 * m.toNat + r.toNat / 3 * c.toNat)
        + d.toNat * k.toNat := by
  have htwo : (2 : UInt64).toNat = 2 := rfl
  have hthree : (3 : UInt64).toNat = 3 := rfl
  have hr2 : (2 * r / 3).toNat = 2 * r.toNat / 3 := by
    rw [UInt64.toNat_div, toNat_mul_of_lt (by rw [htwo]; exact htwice), htwo, hthree]
  have hr1 : (r / 3).toNat = r.toNat / 3 := by rw [UInt64.toNat_div, hthree]
  have hac : (a * c).toNat = a.toNat * c.toNat := toNat_mul_of_lt (by omega)
  have hdk : (d * k).toNat = d.toNat * k.toNat := toNat_mul_of_lt (by omega)
  have hrm : (2 * r / 3 * m).toNat = 2 * r.toNat / 3 * m.toNat := by
    rw [toNat_mul_of_lt (by rw [hr2]; omega), hr2]
  have hrc : (r / 3 * c).toNat = r.toNat / 3 * c.toNat := by
    rw [toNat_mul_of_lt (by rw [hr1]; omega), hr1]
  have hremote : (2 * r / 3 * m + r / 3 * c).toNat
      = 2 * r.toNat / 3 * m.toNat + r.toNat / 3 * c.toNat := by
    rw [toNat_add_of_lt (by omega), hrm, hrc]
  have hfirst : (a * c + (2 * r / 3 * m + r / 3 * c)).toNat = a.toNat * c.toNat
      + (2 * r.toNat / 3 * m.toNat + r.toNat / 3 * c.toNat) := by
    rw [toNat_add_of_lt (by omega), hac, hremote]
  rw [toNat_add_of_lt (by omega), hfirst, hdk]

/-- Without wraparound the 64-bit latency is the exact one. -/
theorem NoWraparound.toNat_totalLatency {cdf : CDFType} {cacheSize : UInt64} {ns : Latencies}
    {i : ℕ} (h : NoWraparound cdf cacheSize ns i) (hi : IsCandidate cdf cacheSize i) :
    ((totalLatency cdf (UInt64.ofNat i) (cacheSize - 3 * UInt64.ofNat i) ns).toNat : ℤ)
      = candidateLatency cdf cacheSize ns i := by
  obtain ⟨hlocal, hremote⟩ := hi.toNat_ofNat
  have hlt := cacheSize.toNat_lt
  have hroom := hi.2
  have hsum : (UInt64.ofNat i + (cacheSize - 3 * UInt64.ofNat i)).toNat
      = i + (cacheSize.toNat - 3 * i) := by
    rw [toNat_add_of_lt (by rw [hlocal, hremote]; omega), hlocal, hremote]
  have hsum' : (cacheSize - 3 * UInt64.ofNat i + UInt64.ofNat i).toNat
      = cacheSize.toNat - 3 * i + i := by
    rw [toNat_add_of_lt (by rw [hlocal, hremote]; omega), hlocal, hremote]
  have ha := toNat_getSumFreqTillIndex h.local_nonneg
  have hr := toNat_getSumFreqTillIndex h.remote_nonneg
  have hd := toNat_getSumFreqTillIndex h.disk_nonneg
  obtain ⟨a, hadef⟩ : ∃ a, a = getSumFreqTillIndex cdf 0 i := ⟨_, rfl⟩
  obtain ⟨r, hrdef⟩ : ∃ r, r = getSumFreqTillIndex cdf i (i + (cacheSize.toNat - 3 * i)) :=
    ⟨_, rfl⟩
  obtain ⟨d, hddef⟩ : ∃ d, d = getSumFreqTillIndex cdf (cacheSize.toNat - 3 * i + i)
    cdf.sortedKeyFreqs.length := ⟨_, rfl⟩
  rw [← hadef] at ha
  rw [← hrdef] at hr
  rw [← hddef] at hd
  have hexact : candidateLatency cdf cacheSize ns i
      = ((a.toNat * ns.cacheNsAvg.toNat + (2 * r.toNat / 3 * ns.rdmaNsAvg.toNat
        + r.toNat / 3 * ns.cacheNsAvg.toNat) + d.toNat * ns.diskNsAvg.toNat : ℕ) : ℤ) := by
    have hthird : (r.toNat : ℤ).tdiv 3 = ((r.toNat / 3 : ℕ) : ℤ) := (Int.ofNat_tdiv _ _).symm
    have htwoThirds : (2 * (r.toNat : ℤ)).tdiv 3 = ((2 * r.toNat / 3 : ℕ) : ℤ) := by
      rw [Int.ofNat_tdiv, Nat.cast_mul]
      rfl
    rw [candidateLatency, exactLatency]
    simp only [← ha, ← hr, ← hd, hthird, htwoThirds]
    push_cast
    rfl
  have hfits := h.latency_fits
  have htwice := h.remote_fits
  rw [hexact] at hfits ⊢
  rw [← hr] at htwice
  rw [totalLatency]
  simp only [hlocal, hsum, hsum', ← hadef, ← hrdef, ← hddef]
  rw [toNat_latency_sum (by omega) (by exact_mod_cast hfits)]

/-- Without wraparound the performance is the reciprocal of the latency, rounded down. -/
theorem NoWraparound.toNat_candidatePerformance {cdf : CDFType} {cacheSize : UInt64}
    {ns : Latencies} {i : ℕ} (h : NoWraparound cdf cacheSize ns i)
    (hi : IsCandidate cdf cacheSize i) :
    ((candidatePerformance cdf cacheSize ns i).toNat : ℤ)
      = (2 ^ 64 - 1) / candidateLatency cdf cacheSize ns i := by
  have hlat := h.toNat_totalLatency hi
  have hmax : (-1 : UInt64).toNat = 2 ^ 64 - 1 := rfl
  rw [candidatePerformance, calculatePerformance]
  split_ifs with hzero
  · rw [UInt64.toNat_div, hmax, ← hlat]
    rfl
  · rw [not_not] at hzero
    rw [← hlat, hzero]
    rfl

/-- In exact latencies: either all candidates have latency `0`, or none has and every candidate
before the first one of least latency has a strictly smaller rounded reciprocal. -/
def RoundingSeparatesLeast (cdf : CDFType) (cacheSize : UInt64) (ns : Latencies) : Prop :=
  (∀ i, IsCandidate cdf cacheSize i → candidateLatency cdf cacheSize ns i = 0) ∨
    (∀ i, IsCandidate cdf cacheSize i → 0 < candidateLatency cdf cacheSize ns i) ∧
      ∀ j, IsCandidate cdf cacheSize j →
        (∀ k, IsCandidate cdf cacheSize k →
          candidateLatency cdf cacheSize ns j ≤ candidateLatency cdf cacheSize ns k) →
        (∀ k, IsCandidate cdf cacheSize k → k < j →
          candidateLatency cdf cacheSize ns j < candidateLatency cdf cacheSize ns k) →
        ∀ i, IsCandidate cdf cacheSize i → i < j →
          (2 ^ 64 - 1) / candidateLatency cdf cacheSize ns i
            < (2 ^ 64 - 1) / candidateLatency cdf cacheSize ns j

/-- There is a first candidate of least latency. -/
theorem exists_first_least {cdf : CDFType} (hne : 1 ≤ cdf.sortedKeyFreqs.length)
    (cacheSize : UInt64) (ns : Latencies) :
    ∃ j, IsCandidate cdf cacheSize j ∧
      (∀ k, IsCandidate cdf cacheSize k →
        candidateLatency cdf cacheSize ns j ≤ candidateLatency cdf cacheSize ns k) ∧
      ∀ k, IsCandidate cdf cacheSize k → k < j →
        candidateLatency cdf cacheSize ns j < candidateLatency cdf cacheSize ns k := by
  obtain ⟨hmem, hmax, hfirst⟩ := isFirstMaximum_candidates
    (fun i => OrderDual.toDual (candidateLatency cdf cacheSize ns i)) hne cacheSize
  exact ⟨_, hmem, hmax, hfirst⟩

/-- A positive latency below `2 ^ 64` has a positive reciprocal. -/
theorem reciprocal_pos {l : ℤ} (hpos : 0 < l) (hlt : l < 2 ^ 64) : 0 < (2 ^ 64 - 1) / l :=
  Int.le_ediv_of_mul_le hpos (by omega)

/-- A larger latency has no larger reciprocal. -/
theorem reciprocal_antitone {l m : ℤ} (hpos : 0 < l) (hle : l ≤ m) :
    (2 ^ 64 - 1 : ℤ) / m ≤ (2 ^ 64 - 1) / l := by
  have hnonneg : 0 ≤ (2 ^ 64 - 1 : ℤ) / m := Int.ediv_nonneg (by omega) (by omega)
  refine Int.le_ediv_of_mul_le hpos ?_
  calc (2 ^ 64 - 1 : ℤ) / m * l ≤ (2 ^ 64 - 1) / m * m := Int.mul_le_mul_of_nonneg_left hle hnonneg
    _ ≤ 2 ^ 64 - 1 := Int.ediv_mul_le _ (by omega)

/-- Below `2 ^ 32` distinct latencies have distinct reciprocals. -/
theorem reciprocal_strict {l m : ℤ} (hpos : 0 < l) (hlt : l < m) (hm : m < 2 ^ 32) :
    (2 ^ 64 - 1 : ℤ) / m < (2 ^ 64 - 1) / l := by
  have hnonneg : 0 ≤ (2 ^ 64 - 1 : ℤ) / m := Int.ediv_nonneg (by omega) (by omega)
  have hmul : (2 ^ 64 - 1 : ℤ) / m * m ≤ 2 ^ 64 - 1 := Int.ediv_mul_le _ (by omega)
  -- the reciprocal of a small latency exceeds the latency
  have hlarge : m - 1 ≤ (2 ^ 64 - 1) / m := by
    refine Int.le_ediv_of_mul_le (by omega) ?_
    calc (m - 1) * m ≤ (2 ^ 32 - 1) * (2 ^ 32 - 1) :=
          Int.mul_le_mul (by omega) (by omega) (by omega) (by omega)
      _ ≤ 2 ^ 64 - 1 := by decide
  refine Int.lt_of_add_one_le (Int.le_ediv_of_mul_le hpos ?_)
  calc ((2 ^ 64 - 1) / m + 1) * l ≤ ((2 ^ 64 - 1) / m + 1) * (m - 1) :=
        Int.mul_le_mul_of_nonneg_left (by omega) (by omega)
    _ = (2 ^ 64 - 1) / m * m + m - 1 - (2 ^ 64 - 1) / m := by ring
    _ ≤ 2 ^ 64 - 1 := by omega

/-- Without wraparound the performances single out a least latency exactly when rounding separates
the first one from the candidates before it. -/
theorem singlesOutLeast_iff_roundingSeparates {cdf : CDFType}
    (hne : 1 ≤ cdf.sortedKeyFreqs.length) {cacheSize : UInt64} {ns : Latencies}
    (hwrap : ∀ i, IsCandidate cdf cacheSize i → NoWraparound cdf cacheSize ns i) :
    PerformanceSinglesOutLeast cdf cacheSize ns ↔ RoundingSeparatesLeast cdf cacheSize ns := by
  have hperf : ∀ i, IsCandidate cdf cacheSize i →
      ((candidatePerformance cdf cacheSize ns i).toNat : ℤ)
        = (2 ^ 64 - 1) / candidateLatency cdf cacheSize ns i :=
    fun i hi => (hwrap i hi).toNat_candidatePerformance hi
  have hnonneg : ∀ i, IsCandidate cdf cacheSize i → 0 ≤ candidateLatency cdf cacheSize ns i :=
    fun i hi => by
      rw [← (hwrap i hi).toNat_totalLatency hi]
      exact Int.natCast_nonneg _
  -- comparing performances is comparing reciprocals
  have hlt_iff : ∀ i j, IsCandidate cdf cacheSize i → IsCandidate cdf cacheSize j →
      (candidatePerformance cdf cacheSize ns i < candidatePerformance cdf cacheSize ns j ↔
        (2 ^ 64 - 1) / candidateLatency cdf cacheSize ns i
          < (2 ^ 64 - 1) / candidateLatency cdf cacheSize ns j) := fun i j hi hj => by
    rw [UInt64.lt_iff_toNat_lt, ← hperf i hi, ← hperf j hj, Int.ofNat_lt]
  have hle_of : ∀ i j, IsCandidate cdf cacheSize i → IsCandidate cdf cacheSize j →
      (2 ^ 64 - 1) / candidateLatency cdf cacheSize ns i
        ≤ (2 ^ 64 - 1) / candidateLatency cdf cacheSize ns j →
      candidatePerformance cdf cacheSize ns i ≤ candidatePerformance cdf cacheSize ns j :=
    fun i j hi hj h => not_lt.mp fun hlt => absurd ((hlt_iff j i hj hi).mp hlt) (not_lt.mpr h)
  constructor
  · rintro ⟨i, hi, hleast, hbefore, hafter⟩
    rcases lt_or_eq_of_le (hnonneg i hi) with hpos | hzero
    · refine Or.inr ⟨fun k hk => lt_of_lt_of_le hpos (hleast k hk),
        fun j hj hjleast hjfirst k hk hkj => ?_⟩
      -- the first least candidate is the one singled out
      have heq := le_antisymm (hleast j hj) (hjleast i hi)
      rcases lt_trichotomy i j with hlt | rfl | hgt
      · exact absurd (hjfirst i hi hlt) (by omega)
      · exact (hlt_iff k i hk hi).mp (hbefore k hk hkj)
      · have hlt := (hlt_iff j i hj hi).mp (hbefore j hj hgt)
        rw [heq] at hlt
        exact absurd hlt (lt_irrefl _)
    · left
      intro k hk
      by_contra hne0
      have hpos := lt_of_le_of_ne (hnonneg k hk) (Ne.symm hne0)
      have hrec := reciprocal_pos hpos (hwrap k hk).latency_fits
      have hlt := (hlt_iff i k hi hk).mpr (by rw [← hzero, Int.ediv_zero]; exact hrec)
      rcases lt_trichotomy k i with hki | rfl | hki
      · exact absurd hlt (not_lt.mpr (le_of_lt (hbefore k hk hki)))
      · exact absurd hlt (lt_irrefl _)
      · exact absurd hlt (not_lt.mpr (hafter k hk hki))
  · rintro (hzero | ⟨hpos, hsep⟩)
    · -- all performances are zero, and candidate 0 is first
      have h0 : IsCandidate cdf cacheSize 0 := ⟨hne, Nat.zero_le _⟩
      refine ⟨0, h0, fun j hj => ?_, fun j _ hlt => absurd hlt (Nat.not_lt_zero j),
        fun j hj _ => hle_of j 0 hj h0 ?_⟩
      · rw [hzero 0 h0, hzero j hj]
      · rw [hzero 0 h0, hzero j hj]
    · obtain ⟨j, hj, hleast, hfirst⟩ := exists_first_least hne cacheSize ns
      exact ⟨j, hj, hleast, fun i hi hij => (hlt_iff i j hi hj).mpr
        (hsep j hj hleast hfirst i hi hij),
        fun i hi _ => hle_of i j hi hj (reciprocal_antitone (hpos j hj) (hleast i hi))⟩

/-- The split is optimal when nothing wraps and every latency is positive and below `2 ^ 32`. -/
theorem publishesOptimalSplit_of_small {cdf : CDFType} (hne : 1 ≤ cdf.sortedKeyFreqs.length)
    {cacheSize : UInt64} {ns : Latencies}
    (hwrap : ∀ i, IsCandidate cdf cacheSize i → NoWraparound cdf cacheSize ns i)
    (hsmall : ∀ i, IsCandidate cdf cacheSize i → 0 < candidateLatency cdf cacheSize ns i ∧
      candidateLatency cdf cacheSize ns i < 2 ^ 32) :
    PublishesOptimalSplit cdf cacheSize ns := by
  rw [publishesOptimalSplit_iff_singlesOutLeast hne,
    singlesOutLeast_iff_roundingSeparates hne hwrap]
  exact Or.inr ⟨fun i hi => (hsmall i hi).1, fun j hj _ hfirst i hi hij =>
    reciprocal_strict (hsmall j hj).1 (hfirst i hi hij) (hsmall i hi).2⟩

/-- **When the published split is optimal.** For every cdf with an entry, every cache size and all
latencies, the published water marks minimise the exact latency over the candidates exactly when the
rounded reciprocals of the latencies modulo `2 ^ 64` tell a candidate of least exact latency from
the others. When nothing wraps, that is: all latencies are `0`, or none is and every candidate
before the first one of least latency has a strictly smaller rounded reciprocal. -/
theorem optimalSplit_iff {cdf : CDFType} (hne : 1 ≤ cdf.sortedKeyFreqs.length)
    (cacheSize : UInt64) (ns : Latencies) :
    (PublishesOptimalSplit cdf cacheSize ns ↔ ReciprocalsSeparateLeast cdf cacheSize ns) ∧
      ((∀ i, IsCandidate cdf cacheSize i → NoWraparound cdf cacheSize ns i) →
        (PublishesOptimalSplit cdf cacheSize ns ↔ RoundingSeparatesLeast cdf cacheSize ns)) := by
  have hiff := publishesOptimalSplit_iff_singlesOutLeast hne cacheSize ns
  exact ⟨hiff.trans singlesOutLeast_iff_reciprocalsSeparate,
    fun hwrap => hiff.trans (singlesOutLeast_iff_roundingSeparates hne hwrap)⟩

/-- One accessed key: the only candidate is published. -/
theorem optimalSplit_iff_one_key :
    PublishesOptimalSplit ⟨[⟨5, "1", 100⟩], fun key => if key = "1" then some (5, 100) else none⟩
      3 ⟨1000, 100000, 30000⟩ := by
  refine ((optimalSplit_iff (by decide) 3 ⟨1000, 100000, 30000⟩).1).mpr
    ⟨0, ⟨by decide, by decide⟩, fun j hj => ?_, fun j _ hlt => absurd hlt (Nat.not_lt_zero j),
      fun j hj hlt => ?_⟩
  · rw [Nat.lt_one_iff.mp hj.1]
  · exact absurd hj.1 (by simp only [List.length_singleton]; omega)

/-- The cdf of the frequencies `100000000` for key `1`, `10` for key `5`, `2` for key `6` and `1`
for keys `2`, `3` and `4`. -/
def tiedCdf : CDFType :=
  ⟨[⟨2, "6", 99⟩, ⟨10, "5", 99⟩, ⟨1, "4", 99⟩, ⟨1, "3", 99⟩, ⟨100000000, "1", 99⟩,
      ⟨1, "2", 100⟩],
    fun key =>
      if key = "6" then some (2, 99)
      else if key = "5" then some (12, 99)
      else if key = "4" then some (13, 99)
      else if key = "3" then some (14, 99)
      else if key = "1" then some (100000014, 99)
      else if key = "2" then some (100000015, 100)
      else none⟩

/-- With latencies of 1, 100 and 30 microseconds one local key beats none by 34 microseconds in ten
thousand seconds; both round to the same performance and none is published. -/
theorem publishes_tied_split : ¬ PublishesOptimalSplit tiedCdf 3 ⟨1000, 100000, 30000⟩ := by
  rintro ⟨-, -, hleast⟩
  exact absurd (hleast 1 ⟨by decide, by decide⟩) (by decide)

end TwigKV.AccessRate
