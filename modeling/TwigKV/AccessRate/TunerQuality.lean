import TwigKV.AccessRate.CdfContents
import TwigKV.AccessRate.HillClimbTermination
import TwigKV.AccessRate.OptimalSplit

/-! # What the hill-climbing tuner keeps

`get_best_access_rates` is the cheap alternative to the search over all splits. Inside the climb the
marks are `int`, in the loops after it they are unsigned, and neither may leave the cache. Where
cache and list fit `int`, every split that the tuner keeps is a split of the whole cache with the
performance of that split, it moves to better ones only, and none is better than the one that the
search over all splits publishes (`tuner_keeps_whole_splits`). As in the model of the tuner, a
percentage of the list is the exact one, rounded down, and performances are compared exactly; the
program computes both with `float`s. -/

namespace TwigKV.AccessRate

namespace TunerInput

variable {input : TunerInput}

/-! ## Splits by their number of local keys -/

/-- The performance with `k` local keys. -/
def score (input : TunerInput) (k : ℕ) : UInt64 :=
  candidatePerformance input.cdf input.cacheSize input.ns k

/-- The split with `k` local keys. -/
def splitAt (input : TunerInput) (k : ℕ) : BestSplit := splitOf input.cdf input.cacheSize input.ns k

/-- What the tuner is called with: cache and list fit `int`, and the water marks in use split the
whole cache. -/
structure FitsInt (input : TunerInput) : Prop where
  /-- The cache. -/
  cacheSize : input.cacheSize.toNat < 2 ^ 31
  /-- The list. -/
  totalKeys : input.totalKeys < 2 ^ 31
  /-- The water marks. -/
  marks : input.MarksFill

/-- A number of local keys as the `int` the climb computes with. -/
theorem ofInt_natCast (k : ℕ) : UInt64.ofInt (k : ℤ) = UInt64.ofNat k := by
  apply UInt64.toNat_inj.mp
  have hint := toNat_ofInt (k : ℤ)
  rw [UInt64.toNat_ofNat']
  omega

/-- The marks of the split with `k` local keys, where there is room for it. -/
theorem toNat_splitAt (hfits : input.FitsInt) {k : ℕ} (hroom : 3 * k ≤ input.cacheSize.toNat) :
    (input.splitAt k).waterMarkLocal.toNat = k ∧
      (input.splitAt k).waterMarkRemote.toNat = input.cacheSize.toNat - 3 * k := by
  have hcache := hfits.cacheSize
  have hthree : (3 : UInt64).toNat = 3 := rfl
  have hk : (UInt64.ofNat k).toNat = k := UInt64.toNat_ofNat_of_lt' (by
    have : UInt64.size = 2 ^ 64 := rfl
    omega)
  have hmul : (3 * UInt64.ofNat k).toNat = 3 * k := by
    rw [toNat_mul_of_lt (by rw [hthree, hk]; omega), hthree, hk]
  refine ⟨hk, ?_⟩
  show (input.cacheSize - 3 * UInt64.ofNat k).toNat = _
  rw [UInt64.toNat_sub_of_le _ _ (UInt64.le_iff_toNat_le.mpr (by rw [hmul]; exact hroom)), hmul]

/-- A 64-bit number is the remote mark of `k` local keys if the numbers are right. -/
theorem eq_waterMarkRemote (hfits : input.FitsInt) {k : ℕ} (hroom : 3 * k ≤ input.cacheSize.toNat)
    {remote : UInt64} (h : remote.toNat = input.cacheSize.toNat - 3 * k) :
    remote = (input.splitAt k).waterMarkRemote :=
  UInt64.toNat_inj.mp (h.trans (toNat_splitAt hfits hroom).2.symm)

/-- The marks of a split give the split. -/
theorem eq_splitAt {k : ℕ} {newLocal newRemote : UInt64}
    (hlocal : newLocal = (input.splitAt k).waterMarkLocal)
    (hremote : newRemote = (input.splitAt k).waterMarkRemote) :
    (⟨calculatePerformance input.cdf newLocal newRemote input.ns, newLocal, newRemote⟩ : BestSplit)
      = input.splitAt k := by
  rw [hlocal, hremote]
  rfl

/-- The remote mark of the climb for a number of local keys. -/
theorem ofInt_remoteFor (hfits : input.FitsInt) {k : ℕ} (hroom : 3 * k ≤ input.cacheSize.toNat) :
    UInt64.ofInt (input.remoteFor k) = (input.splitAt k).waterMarkRemote := by
  have hcache := hfits.cacheSize
  refine eq_waterMarkRemote hfits hroom ?_
  have hremote : input.remoteFor k = (input.cacheSize.toNat - 3 * k : ℤ) := by
    rw [remoteFor_eq, wrapInt]
    omega
  have hint := toNat_ofInt (input.remoteFor k)
  omega

/-! ## What the tuner keeps -/

/-- The split kept is the one of its local mark, there is room for it, and it is the initial one
unless it is better. -/
structure BestOk (input : TunerInput) (best : BestSplit) : Prop where
  /-- It is the split of its local mark. -/
  split : best = input.splitAt best.waterMarkLocal.toNat
  /-- There is room for it. -/
  room : 3 * best.waterMarkLocal.toNat ≤ input.cacheSize.toNat
  /-- It is the initial one or better. -/
  improves : best = input.initial.best ∨ input.initial.best.performance < best.performance

/-- The local mark of a loop that goes on from it has room, up to the percent of the list by which
the loop after the climb goes up at once. The last loop is not entered, so nothing is known of
it. -/
def PcOk (input : TunerInput) (st : TunerState) : Prop :=
  match st.pc with
  | .decreasing newLocal => 3 * newLocal ≤ input.cacheSize.toNat
  | .fallbackIncreasing newLocal _ =>
      3 * newLocal.toNat ≤ input.cacheSize.toNat + 3 * (input.totalKeys / 100) ∧
        st.reducedPerfDecreasing = false
  | .fallbackDecreasing _ => st.reducedPerfDecreasing = false
  | .increasing _ | .finished => True

/-- **The invariant of the tuner.** -/
structure TunerInvariant (input : TunerInput) (st : TunerState) : Prop where
  /-- The split kept. -/
  best : input.BestOk st.best
  /-- The loop. -/
  pc : input.PcOk st

/-- A better split with room is kept. -/
theorem BestOk.better (hfits : input.FitsInt) {best : BestSplit} (h : input.BestOk best) {k : ℕ}
    (hroom : 3 * k ≤ input.cacheSize.toNat) (hbetter : best.performance < input.score k) :
    input.BestOk (input.splitAt k) where
  split := by rw [(toNat_splitAt hfits hroom).1]
  room := by
    rw [(toNat_splitAt hfits hroom).1]
    exact hroom
  improves := by
    right
    rcases h.improves with hinitial | hless
    · rw [← hinitial]
      exact hbetter
    · exact lt_trans hless hbetter

/-- The split in use is kept at the beginning. -/
theorem bestOk_initial (hfits : input.FitsInt) : input.BestOk input.initial.best := by
  have hfill : 3 * input.initialWaterMarkLocal.toNat + input.initialWaterMarkRemote.toNat
      = input.cacheSize.toNat := hfits.marks
  have hroom : 3 * input.initialWaterMarkLocal.toNat ≤ input.cacheSize.toNat := by omega
  refine ⟨?_, hroom, Or.inl rfl⟩
  have hlocal : input.initialWaterMarkLocal
      = (input.splitAt input.initialWaterMarkLocal.toNat).waterMarkLocal := by
    rw [splitAt, splitOf, UInt64.ofNat_toNat]
  have hremote : input.initialWaterMarkRemote
      = (input.splitAt input.initialWaterMarkLocal.toNat).waterMarkRemote :=
    eq_waterMarkRemote hfits hroom (by omega)
  exact eq_splitAt hlocal hremote

/-! ## One evaluation -/

/-- The continuations of the loops change flags and, at most, the loop. -/
def KeepsBest (f : TunerState → TunerState) : Prop := ∀ st, (f st).best = st.best

/-- **An evaluation of a split with room** keeps a split that is in order. -/
theorem BestOk.evaluate (hfits : input.FitsInt) {st : TunerState} (h : input.BestOk st.best) {k : ℕ}
    (hroom : 3 * k ≤ input.cacheSize.toNat) {newLocal newRemote : UInt64}
    (hlocal : newLocal = (input.splitAt k).waterMarkLocal)
    (hremote : newRemote = (input.splitAt k).waterMarkRemote)
    {onImproved onReduced : TunerState → TunerState} (himproved : KeepsBest onImproved)
    (hreduced : KeepsBest onReduced) :
    input.BestOk (input.evaluate st newLocal newRemote onImproved onReduced).best := by
  rcases @evaluate_cases input st newLocal newRemote onImproved onReduced with
    ⟨performance, hbetter, rfl, heq⟩ | heq | ⟨-, heq⟩
  · have hkept := eq_splitAt hlocal hremote
    rw [heq, himproved, hkept]
    refine h.better hfits hroom (lt_of_lt_of_eq hbetter ?_)
    rw [hlocal, hremote]
    rfl
  · rw [heq, hreduced]
    exact h
  · rw [heq]
    exact h

/-- In the climb the marks of such a split are an `int` and what is computed from it. -/
theorem BestOk.evaluateInt (hfits : input.FitsInt) {st : TunerState} (h : input.BestOk st.best)
    {newLocal : ℤ} (hpos : 0 ≤ newLocal) (hroom : 3 * newLocal ≤ input.cacheSize.toNat)
    {onImproved onReduced : TunerState → TunerState} (himproved : KeepsBest onImproved)
    (hreduced : KeepsBest onReduced) :
    input.BestOk (input.evaluate st (UInt64.ofInt newLocal)
      (UInt64.ofInt (input.remoteFor newLocal)) onImproved onReduced).best := by
  obtain ⟨k, rfl⟩ := Int.eq_ofNat_of_zero_le hpos
  have hroom' : 3 * k ≤ input.cacheSize.toNat := by omega
  exact h.evaluate hfits hroom' (ofInt_natCast k) (ofInt_remoteFor hfits hroom') himproved hreduced

/-- An `int` that is not above a third of the cache as an unsigned number is a number of local keys
with room. -/
theorem room_of_not_gt {newLocal : ℤ} (hint : -2 ^ 31 ≤ newLocal ∧ newLocal < 2 ^ 31)
    (h : ¬ UInt64.ofInt newLocal > input.cacheSize / 3) (hcache : input.cacheSize.toNat < 2 ^ 31) :
    0 ≤ newLocal ∧ 3 * newLocal ≤ input.cacheSize.toNat := by
  have hthree : (3 : UInt64).toNat = 3 := rfl
  have hvalue := toNat_ofInt newLocal
  rw [gt_iff_lt, UInt64.not_lt, UInt64.le_iff_toNat_le, UInt64.toNat_div, hthree] at h
  omega

/-! ## The loops -/

/-- The end of the climb keeps the split. -/
theorem TunerInvariant.endRound (hfits : input.FitsInt) {st : TunerState}
    (h : input.BestOk st.best) : input.TunerInvariant (input.endRound st) := by
  rw [TunerInput.endRound]
  split
  · exact ⟨h, trivial⟩
  · split
    · refine ⟨h, ?_, rfl⟩
      have hcache := hfits.cacheSize
      have hlist := hfits.totalKeys
      have hroom := h.room
      have hpercent := @toNat_percentageToIndex input.totalKeys (by omega) 100 (le_refl 100)
      rw [UInt64.toNat_add, hpercent]
      omega
    · exact ⟨h, trivial⟩

/-- The end of the `for` loop. -/
theorem TunerInvariant.endIncreasing (hfits : input.FitsInt) {st : TunerState}
    (h : input.BestOk st.best) : input.TunerInvariant (input.endIncreasing st) := by
  rw [TunerInput.endIncreasing]
  split
  · refine ⟨h, ?_⟩
    have hcache := hfits.cacheSize
    have hroom := h.room
    -- the loop starts at the split kept, read into an `int`
    show 3 * wrapInt st.best.waterMarkLocal.toNat ≤ _
    rw [wrapInt]
    omega
  · exact .endRound hfits h

/-- An iteration of the `for` loop: where it does not break, the number of local keys it tries is
not negative and has room. -/
theorem TunerInvariant.stepIncreasing (hfits : input.FitsInt) {st : TunerState}
    (h : input.TunerInvariant st) (i : ℕ) : input.TunerInvariant (input.stepIncreasing st i) := by
  rw [TunerInput.stepIncreasing]
  split
  · exact .endIncreasing hfits h.best
  · next hin =>
    -- the guard on `newLocal` compares unsigned, so the loop also breaks below `0`
    have hnotGt := fun hgt => hin (Or.inr (Or.inr (Or.inl hgt)))
    obtain ⟨hpos, hroom⟩ := room_of_not_gt (wrapInt_bounds _) hnotGt hfits.cacheSize
    exact ⟨h.best.evaluateInt hfits hpos hroom (fun _ => rfl) (fun _ => rfl), trivial⟩

/-- An iteration of the loop that decreases: it goes down from a number of local keys with room, and
it breaks below `0`. -/
theorem TunerInvariant.stepDecreasing (hfits : input.FitsInt) {st : TunerState}
    (h : input.TunerInvariant st) {newLocal : ℤ} (hpc : st.pc = .decreasing newLocal) :
    input.TunerInvariant (input.stepDecreasing st newLocal) := by
  have hloop : 3 * newLocal ≤ input.cacheSize.toNat := by
    have hpcOk := h.pc
    rwa [PcOk, hpc] at hpcOk
  have hcache := hfits.cacheSize
  have hlist := hfits.totalKeys
  rw [TunerInput.stepDecreasing]
  split
  · next hin =>
    have hnext : wrapInt (UInt64.ofInt newLocal - percentageToIndex input.totalKeys 1).toNat
        ≤ newLocal := by
      rw [wrapInt_sub_percentageToIndex (by omega), wrapInt]
      omega
    dsimp only
    split
    · exact .endRound hfits h.best
    · next hin' =>
      have hpos := not_lt.mp fun hneg => hin' (Or.inl hneg)
      have hroom : 3 * wrapInt (UInt64.ofInt newLocal - percentageToIndex input.totalKeys 1).toNat
          ≤ input.cacheSize.toNat := by omega
      exact ⟨h.best.evaluateInt hfits hpos hroom (fun _ => rfl) (fun _ => rfl), hroom⟩
  · exact .endRound hfits h.best

/-- The end of the loop that increases by a percent. -/
theorem TunerInvariant.endFallbackIncreasing {st : TunerState} (h : input.BestOk st.best)
    (hflag : st.reducedPerfDecreasing = false) :
    input.TunerInvariant (input.endFallbackIncreasing st) := by
  rw [TunerInput.endFallbackIncreasing]
  split
  · exact ⟨h, hflag⟩
  · exact ⟨h, trivial⟩

/-- An iteration of the loop that increases by a percent: where three times the local mark no longer
fit, the remote mark wraps to one that is not below the cache. -/
theorem TunerInvariant.stepFallbackIncreasing (hfits : input.FitsInt) {st : TunerState}
    (h : input.TunerInvariant st) {newLocal newRemote : UInt64}
    (hpc : st.pc = .fallbackIncreasing newLocal newRemote) :
    input.TunerInvariant (input.stepFallbackIncreasing st newLocal newRemote) := by
  have hloop := h.pc
  rw [PcOk, hpc] at hloop
  obtain ⟨hnear, hflag⟩ := hloop
  have hcache := hfits.cacheSize
  have hlist := hfits.totalKeys
  have hpercent := @toNat_percentageToIndex input.totalKeys (by omega) 100 (le_refl 100)
  rw [TunerInput.stepFallbackIncreasing]
  split
  · obtain ⟨next, hnext⟩ : ∃ next, newLocal + percentageToIndex input.totalKeys 100 = next :=
      ⟨_, rfl⟩
    have hvalue : next.toNat = newLocal.toNat + input.totalKeys * 100 / 10000 := by
      rw [← hnext, UInt64.toNat_add, hpercent]
      omega
    have hthree : (3 : UInt64).toNat = 3 := rfl
    have hmul : (next * 3).toNat = 3 * next.toNat := by
      rw [toNat_mul_of_lt (by rw [hthree]; omega), hthree, Nat.mul_comm]
    have hremote := toNat_sub_emod input.cacheSize (next * 3)
    dsimp only
    rw [hnext]
    split
    · exact .endFallbackIncreasing h.best hflag
    · next hin =>
      rw [ge_iff_le, UInt64.le_iff_toNat_le] at hin
      -- a remote mark that wraps is not below the cache, and the guard excludes it
      have hroom : 3 * next.toNat ≤ input.cacheSize.toNat := by omega
      have hlocal : next = (input.splitAt next.toNat).waterMarkLocal := by
        rw [splitAt, splitOf, UInt64.ofNat_toNat]
      have hsplit := eq_waterMarkRemote hfits hroom
        (show (input.cacheSize - next * 3).toNat = _ by omega)
      refine ⟨h.best.evaluate hfits hroom hlocal hsplit (fun _ => rfl) (fun _ => rfl), ?_, ?_⟩
      · omega
      · exact (input.reducedPerfDecreasing_evaluate st _ _).trans hflag
  · exact .endFallbackIncreasing h.best hflag

/-- The last loop is not entered. -/
theorem TunerInvariant.stepFallbackDecreasing {st : TunerState} (h : input.TunerInvariant st)
    {newLocal : UInt64} (hpc : st.pc = .fallbackDecreasing newLocal) :
    input.TunerInvariant (input.stepFallbackDecreasing st newLocal) := by
  have hflag := h.pc
  rw [PcOk, hpc] at hflag
  rw [TunerInput.stepFallbackDecreasing, if_neg fun hloop => Bool.false_ne_true (hflag ▸ hloop.2)]
  exact ⟨h.best, trivial⟩

/-- **Every iteration keeps the invariant.** -/
theorem TunerInvariant.step (hfits : input.FitsInt) {st st' : TunerState}
    (h : input.TunerInvariant st) (hstep : input.step st = some st') :
    input.TunerInvariant st' := by
  rw [TunerInput.step] at hstep
  cases hpc : st.pc with
  | increasing i =>
      rw [hpc] at hstep
      cases hstep
      exact h.stepIncreasing hfits i
  | decreasing newLocal =>
      rw [hpc] at hstep
      cases hstep
      exact h.stepDecreasing hfits hpc
  | fallbackIncreasing newLocal newRemote =>
      rw [hpc] at hstep
      cases hstep
      exact h.stepFallbackIncreasing hfits hpc
  | fallbackDecreasing newLocal =>
      rw [hpc] at hstep
      cases hstep
      exact h.stepFallbackDecreasing hpc
  | finished =>
      rw [hpc] at hstep
      cases hstep

/-- The invariant holds in every state of every run. -/
theorem TunerInvariant.of_runs (hfits : input.FitsInt) {st : TunerState}
    (hreach : Runs input.step input.initial st) : input.TunerInvariant st :=
  hreach.invariant (fun _ _ hinv hstep => hinv.step hfits hstep) ⟨bestOk_initial hfits, trivial⟩

/-! ## The result -/

/-- An index from the last position on is read at the last position. -/
theorem clampIndex_of_le {cdf : CDFType} {n index : ℕ} (hn : cdf.sortedKeyFreqs.length = n + 1)
    (h : n ≤ index) : clampIndex cdf index = n := by
  rw [clampIndex, hn]
  split <;> omega

/-- From the last position on, more local keys serve the same accesses from the same places. -/
theorem score_of_le (hfits : input.FitsInt) {n k : ℕ} (hn : input.totalKeys = n + 1)
    (hk : n ≤ k) (hroom : 3 * k ≤ input.cacheSize.toNat) : input.score k = input.score n := by
  have hcache := hfits.cacheSize
  -- all three sums are read at the last position
  have hlatency : ∀ l, n ≤ l → 3 * l ≤ input.cacheSize.toNat →
      totalLatency input.cdf (input.splitAt l).waterMarkLocal (input.splitAt l).waterMarkRemote
          input.ns
        = (prefixSumAt input.cdf n - prefixSumAt input.cdf (clampIndex input.cdf 0))
            * input.ns.cacheNsAvg + (2 * 0 / 3 * input.ns.rdmaNsAvg + 0 / 3 * input.ns.cacheNsAvg)
          + 0 * input.ns.diskNsAvg := by
    intro l hl hroom
    obtain ⟨hlocal, hremote⟩ := toNat_splitAt hfits hroom
    have hend : n ≤ input.cdf.sortedKeyFreqs.length :=
      le_of_le_of_eq (Nat.le_succ n) hn.symm
    have hsum : ((input.splitAt l).waterMarkLocal + (input.splitAt l).waterMarkRemote).toNat
        = input.cacheSize.toNat - 2 * l := by
      rw [toNat_add_of_lt (by omega), hlocal, hremote]
      omega
    rw [totalLatency, UInt64.add_comm (input.splitAt l).waterMarkRemote]
    simp only [getSumFreqTillIndex, hlocal, hsum, clampIndex_of_le hn hl,
      clampIndex_of_le hn (show n ≤ input.cacheSize.toNat - 2 * l by omega),
      clampIndex_of_le hn hend, UInt64.sub_self]
  have hscore : ∀ l, input.score l = calculatePerformance input.cdf
      (input.splitAt l).waterMarkLocal (input.splitAt l).waterMarkRemote input.ns := fun _ => rfl
  rw [hscore, hscore, calculatePerformance, calculatePerformance, hlatency k hk hroom,
    hlatency n (le_refl n) (by omega)]

/-- **The tuner keeps splits of the whole cache and never does worse than before, nor better than
the search over all splits.** Where cache and list fit `int` and the water marks in use split the
whole cache, in every iteration of every run: the split kept splits the whole cache, its performance
is the one of that split, it is the initial split or strictly better, and its performance is at most
the one that the search over all splits finds. -/
theorem tuner_keeps_whole_splits (hfits : input.FitsInt) (hkeys : 0 < input.totalKeys)
    {st : TunerState}
    (hreach : Runs input.step input.initial st) :
    3 * st.best.waterMarkLocal.toNat + st.best.waterMarkRemote.toNat = input.cacheSize.toNat ∧
      st.best.performance = calculatePerformance input.cdf st.best.waterMarkLocal
        st.best.waterMarkRemote input.ns ∧
      (st.best = input.initial.best ∨ input.initial.best.performance < st.best.performance) ∧
      st.best.performance
        ≤ (findOptimalSplit input.cdf input.cacheSize input.ns).performance := by
  have hinv := TunerInvariant.of_runs hfits hreach
  have hbest := hinv.best
  obtain ⟨hlocal, hremote⟩ := toNat_splitAt hfits hbest.room
  have hroom := hbest.room
  refine ⟨?_, ?_, hbest.improves, ?_⟩
  · rw [hbest.split, hlocal, hremote]
    omega
  · rw [hbest.split]
    rfl
  · obtain ⟨i, hfound, hfirst⟩ := findOptimalSplit_eq hkeys input.cacheSize input.ns
    obtain ⟨n, hn⟩ := Nat.exists_eq_add_of_le' hkeys
    have hscore : st.best.performance = input.score st.best.waterMarkLocal.toNat :=
      congrArg BestSplit.performance hbest.split
    rw [hscore, hfound]
    -- the search goes up to the last key, the tuner may keep more local keys than there are keys
    by_cases hlast : st.best.waterMarkLocal.toNat < input.totalKeys
    · exact hfirst.max _ ⟨hlast, hroom⟩
    · rw [score_of_le hfits hn (by omega) hroom]
      refine hfirst.max n ⟨?_, by omega⟩
      change n < input.totalKeys
      omega

end TunerInput

/-- Two keys, the first of them local, after the first step up. -/
theorem tuner_keeps_whole_splits_first_step : ∃ cdf,
    getAndSortFreq [("1", 3), ("2", 1)] 2 = some cdf ∧
      ∀ input : TunerInput, input = ⟨cdf, tunerLatencies, 6, 1, 3⟩ →
        (input.stepIncreasing input.initial 1).best.performance
          ≤ (findOptimalSplit cdf 6 tunerLatencies).performance := by
  obtain ⟨cdf, hrun, hlist⟩ := exists_cdf_three_and_one
  refine ⟨cdf, hrun, ?_⟩
  rintro input rfl
  have hkeys : TunerInput.totalKeys ⟨cdf, tunerLatencies, 6, 1, 3⟩ = 2 := by
    rw [TunerInput.totalKeys, hlist]
    rfl
  have hcache : (6 : UInt64).toNat < 2 ^ 31 := by decide
  exact (TunerInput.tuner_keeps_whole_splits ⟨hcache, by rw [hkeys]; decide, by exact rfl⟩
    (by rw [hkeys]; decide) (Relation.ReflTransGen.single rfl)).2.2.2

end TwigKV.AccessRate
