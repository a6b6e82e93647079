import TwigKV.AccessRate.TunerQuality

/-! # When the hill-climbing tuner finishes

For a list of fewer than `10000` keys the step of the loop that decreases is `0`. With a local key
to take away the loop then evaluates the best split again and again: the performance is the same,
neither better nor worse, and nothing changes (`OnPlateau.not_endsIn`).

The tuner finishes exactly if it never goes wrong. For marks and a list that are `int`s, a cache in
which no split keeps the whole list locally and keys that are numbers, this comes to the length of
the list and the initial local mark (`finishes_iff`). -/

namespace TwigKV.AccessRate

namespace TunerInput

variable {input : TunerInput}

/-! ## The plateau -/

/-- A split in the middle of the climb, whose remote mark is computed back from its local one. -/
structure IsPlateau (input : TunerInput) (best : BestSplit) : Prop where
  /-- There is a local key. -/
  pos : 0 < best.waterMarkLocal.toNat
  /-- The local mark is an `int`. -/
  isInt : best.waterMarkLocal.toNat < 2 ^ 31
  /-- No loop is left for the remote mark. -/
  remote : 0 ≤ input.remoteFor best.waterMarkLocal.toNat ∧
    UInt64.ofInt (input.remoteFor best.waterMarkLocal.toNat) < input.cacheSize
  /-- The best performance is the performance of this split. -/
  performance : calculatePerformance input.cdf best.waterMarkLocal
    (UInt64.ofInt (input.remoteFor best.waterMarkLocal.toNat)) input.ns = best.performance

/-- The climb on a plateau. -/
structure OnPlateau (input : TunerInput) (st : TunerState) : Prop where
  /-- The best split is one. -/
  plateau : input.IsPlateau st.best
  /-- No reduced performance has been found on the way down. -/
  flagOff : st.reducedPerfDecreasing = false
  /-- The loops of the climb; the one that decreases is at the best split. -/
  pc : (∃ i, st.pc = .increasing i) ∨ st.pc = .decreasing st.best.waterMarkLocal.toNat

/-- An `int` that is not negative, as a 64-bit number. -/
theorem ofInt_toNat (x : UInt64) : UInt64.ofInt x.toNat = x := by
  refine UInt64.toNat_inj.mp ?_
  exact toNat_ofInt_natCast x.toNat_lt

/-- Where the climb does not move, its steps are at most two modulo `2 ^ 32`. -/
theorem emod_step_le (hstays : ¬ input.Moves) {i : ℕ} (hi : i ≤ 3) :
    input.totalKeys * i / 10000 % 2 ^ 32 ≤ 2 := by
  rw [Moves, not_not] at hstays
  obtain ⟨k, hk⟩ := Nat.dvd_of_mod_eq_zero hstays
  have hsplit : input.totalKeys * i
      = 10000 * (2 ^ 32 * (k * i)) + input.totalKeys % 10000 * i := by
    conv_lhs => rw [← Nat.div_add_mod input.totalKeys 10000, hk]
    rw [Nat.add_mul, Nat.mul_assoc 10000, Nat.mul_assoc (2 ^ 32)]
  have hrest : input.totalKeys % 10000 * i ≤ 9999 * 3 := Nat.mul_le_mul (by omega) hi
  rw [hsplit, Nat.mul_add_div (by decide), Nat.mul_add_mod]
  omega

/-- A local mark that the climb tries and does not leave a loop for is on the plateau again. -/
theorem IsPlateau.candidate (hsize : input.totalKeys < 2 ^ 64) (hstays : ¬ input.Moves)
    {best : BestSplit} (h : input.IsPlateau best) {i : ℕ} (hi : i ≤ 3)
    {newLocal : ℤ}
    (hnew : newLocal = wrapInt (best.waterMarkLocal + percentageToIndex input.totalKeys i).toNat)
    (hthird : UInt64.ofInt newLocal ≤ input.cacheSize / 3) (hremote : 0 ≤ input.remoteFor newLocal)
    (hless : UInt64.ofInt (input.remoteFor newLocal) < input.cacheSize) :
    input.IsPlateau ⟨calculatePerformance input.cdf (UInt64.ofInt newLocal)
        (UInt64.ofInt (input.remoteFor newLocal)) input.ns,
      UInt64.ofInt newLocal, UInt64.ofInt (input.remoteFor newLocal)⟩ := by
  have hpos := h.pos
  have hint := h.isInt
  have hbounds := wrapInt_bounds (best.waterMarkLocal + percentageToIndex input.totalKeys i).toNat
  rw [← hnew] at hbounds
  have hcache := input.cacheSize.toNat_lt
  have hthree : (3 : UInt64).toNat = 3 := rfl
  have hof := toNat_ofInt newLocal
  have hle := UInt64.le_iff_toNat_le.mp hthird
  rw [UInt64.toNat_div, hthree] at hle
  have hstep := emod_step_le hstays hi
  have hnonneg : 0 ≤ newLocal := by omega
  have hpositive : newLocal ≠ 0 := by
    rw [UInt64.toNat_add, toNat_percentageToIndex hsize (by omega), wrapInt] at hnew
    omega
  have hval : ((UInt64.ofInt newLocal).toNat : ℤ) = newLocal := by omega
  constructor
  · change 0 < (UInt64.ofInt newLocal).toNat
    omega
  · change (UInt64.ofInt newLocal).toNat < 2 ^ 31
    omega
  · simp only [hval]
    exact ⟨hremote, hless⟩
  · simp only [hval]

/-- A mark that is an `int`. -/
theorem wrapInt_of_lt {n : ℕ} (h : n < 2 ^ 31) : wrapInt n = n := by
  rw [wrapInt]
  omega

/-- An iteration of the `for` loop stays on the plateau. -/
theorem OnPlateau.stepIncreasing (hsize : input.totalKeys < 2 ^ 64) (hstays : ¬ input.Moves)
    {st : TunerState} (h : input.OnPlateau st) (i : ℕ) :
    input.OnPlateau (input.stepIncreasing st i) := by
  rw [TunerInput.stepIncreasing]
  split
  · rw [endIncreasing]
    split
    · exact ⟨h.plateau, h.flagOff, Or.inr (congrArg TunerPc.decreasing
        (wrapInt_of_lt h.plateau.isInt))⟩
    · next himproved =>
      -- another round follows
      have himp : st.improvedIncreasing = true := by simpa using himproved
      rw [endRound, himp, Bool.true_or, if_pos rfl]
      exact ⟨h.plateau, rfl, Or.inl ⟨1, rfl⟩⟩
  · next hin =>
    simp only [not_or, not_lt, ge_iff_le, not_le] at hin
    obtain ⟨hi, hremote, hthird, hless⟩ := hin
    rcases input.evaluate_cases st _ _
        (fun st => { st with improvedIncreasing := true, improved := true })
        (fun st => { st with reducedPerfIncreasing := true }) with ⟨_, -, rfl, heq⟩ | heq | ⟨-, heq⟩
    · rw [heq]
      exact ⟨h.plateau.candidate hsize hstays hi rfl hthird hremote hless, h.flagOff,
        Or.inl ⟨i + 1, rfl⟩⟩
    · rw [heq]
      exact ⟨h.plateau, h.flagOff, Or.inl ⟨i + 1, rfl⟩⟩
    · rw [heq]
      exact ⟨h.plateau, h.flagOff, Or.inl ⟨i + 1, rfl⟩⟩

/-- An iteration of the loop that decreases evaluates the best split again. -/
theorem OnPlateau.stepDecreasing (hsize : input.totalKeys < 2 ^ 64) (hstays : ¬ input.Moves)
    {st : TunerState} (h : input.OnPlateau st) :
    input.stepDecreasing st st.best.waterMarkLocal.toNat
      = st.goto (.decreasing st.best.waterMarkLocal.toNat) := by
  have hpos := h.plateau.pos
  have hwrap := wrapInt_of_lt h.plateau.isInt
  have hint := h.plateau.isInt
  have hsame : wrapInt (st.best.waterMarkLocal.toNat - input.totalKeys / 10000)
      = st.best.waterMarkLocal.toNat := wrapInt_sub_stays hstays (by omega) (by omega)
  have hloop : (0 : ℤ) < st.best.waterMarkLocal.toNat ∧ st.reducedPerfDecreasing = false :=
    ⟨by omega, h.flagOff⟩
  have hin : ¬ ((st.best.waterMarkLocal.toNat : ℤ) < 0 ∨
      UInt64.ofInt (input.remoteFor st.best.waterMarkLocal.toNat) ≥ input.cacheSize) := by
    rw [not_or]
    exact ⟨by omega, not_le.mpr h.plateau.remote.2⟩
  rw [TunerInput.stepDecreasing, if_pos hloop, wrapInt_sub_percentageToIndex hsize, hsame]
  dsimp only
  rw [if_neg hin, ofInt_toNat, evaluate_of_eq h.plateau.performance]

/-- **On a plateau the tuner runs forever.** -/
theorem OnPlateau.not_endsIn (hsize : input.totalKeys < 2 ^ 64) (hstays : ¬ input.Moves)
    {st : TunerState} (h : input.OnPlateau st) : ¬ EndsIn input.step input.Publishes st := by
  refine not_endsIn_of_invariant (fun st h => ?_) h
  rcases h.pc with ⟨i, hpc⟩ | hpc
  · exact ⟨_, by rw [step, hpc], h.stepIncreasing hsize hstays i⟩
  · refine ⟨_, by rw [step, hpc], ?_⟩
    rw [h.stepDecreasing hsize hstays]
    exact ⟨h.plateau, h.flagOff, Or.inr rfl⟩

/-! ## The initial marks -/

/-- Of the initial local mark the remote one is computed back, modulo `2 ^ 32`. -/
theorem remoteFor_initial (hfill : input.MarksFill) :
    input.remoteFor (wrapInt input.initialWaterMarkLocal.toNat)
      = wrapInt input.initialWaterMarkRemote.toNat := by
  rw [MarksFill] at hfill
  rw [remoteFor_eq]
  simp only [wrapInt]
  omega

/-- Marks that are `int`s, with a local key, are a plateau. -/
theorem onPlateau_initial (hfill : input.MarksFill) (hpos : 0 < input.initialWaterMarkLocal.toNat)
    (hlocal : input.initialWaterMarkLocal.toNat < 2 ^ 31)
    (hremote : input.initialWaterMarkRemote.toNat < 2 ^ 31) : input.OnPlateau input.initial := by
  have hback := remoteFor_initial hfill
  rw [wrapInt_of_lt hlocal, wrapInt_of_lt hremote] at hback
  rw [MarksFill] at hfill
  refine ⟨⟨hpos, hlocal, ?_, ?_⟩, rfl, Or.inl ⟨1, rfl⟩⟩
  · change 0 ≤ input.remoteFor input.initialWaterMarkLocal.toNat ∧
      UInt64.ofInt (input.remoteFor input.initialWaterMarkLocal.toNat) < input.cacheSize
    rw [hback, ofInt_toNat, UInt64.lt_iff_toNat_lt]
    omega
  · change calculatePerformance input.cdf input.initialWaterMarkLocal
      (UInt64.ofInt (input.remoteFor input.initialWaterMarkLocal.toNat)) input.ns
      = calculatePerformance input.cdf input.initialWaterMarkLocal
          input.initialWaterMarkRemote input.ns
    rw [hback, ofInt_toNat]

/-! ## Marks that are `int`s -/

/-- For a list that fits `int`, the step is `0` below `10000` keys. -/
theorem moves_iff (hfits : input.FitsInt) : input.Moves ↔ 10000 ≤ input.totalKeys := by
  have hlist := hfits.totalKeys
  rw [Moves]
  omega

/-- With a local key and a step of `0` the tuner does not finish. -/
theorem not_finishes_of_short (hfits : input.FitsInt) (hshort : input.totalKeys < 10000)
    (hpos : 0 < input.initialWaterMarkLocal.toNat) : ¬ input.Finishes := by
  have hcache := hfits.cacheSize
  have hfill : 3 * input.initialWaterMarkLocal.toNat + input.initialWaterMarkRemote.toNat
      = input.cacheSize.toNat := hfits.marks
  have hplateau := onPlateau_initial hfits.marks hpos (by omega) (by omega)
  exact hplateau.not_endsIn (by omega) fun hmoves =>
    absurd ((moves_iff hfits).mp hmoves) (not_le.mpr hshort)

/-- Without a local key no loop is entered, and no cutoff is looked up. -/
theorem finishes_of_no_local (hfits : input.FitsInt) (hshort : input.totalKeys < 10000)
    (hzero : input.initialWaterMarkLocal.toNat = 0) : input.Finishes := by
  have hcache := hfits.cacheSize
  have hlocal : input.initialWaterMarkLocal = 0 := UInt64.toNat_inj.mp hzero
  have hbest : input.initial.best.waterMarkLocal = 0 := hlocal
  have hstep : percentageToIndex input.totalKeys 1 = 0 := by
    refine UInt64.toNat_inj.mp ?_
    rw [toNat_percentageToIndex (by omega) (by decide), UInt64.toNat_zero]
    omega
  have hremote : UInt64.ofInt (input.remoteFor 0) = input.cacheSize := by
    have heq : input.remoteFor 0 = input.cacheSize.toNat := by
      rw [remoteFor_eq, wrapInt]
      omega
    rw [heq, ofInt_toNat]
  have hfirst : input.step input.initial = some (input.initial.goto (.decreasing 0)) := by
    have hmark : wrapInt (0 : UInt64).toNat = 0 := by decide
    have hend : input.endIncreasing input.initial = input.initial.goto (.decreasing 0) := by
      rw [endIncreasing, hbest, hmark]
      exact if_pos rfl
    refine congrArg some ?_
    rw [stepIncreasing, hbest, hstep, hend, add_zero, hmark]
    exact if_pos (Or.inr (Or.inr (Or.inr (le_of_eq hremote.symm))))
  have hsecond : input.step (input.initial.goto (.decreasing 0))
      = some (input.startFallback input.initial) := rfl
  have hthird : input.step (input.startFallback input.initial)
      = some (input.endFallbackIncreasing (input.startFallback input.initial)) := by
    refine congrArg some (if_neg fun hloop => ?_)
    have hless : input.cacheSize - input.initial.best.waterMarkLocal * 3 < input.cacheSize :=
      hloop.1
    rw [hbest, zero_mul, UInt64.sub_zero] at hless
    exact lt_irrefl _ hless
  have hfourth : input.endFallbackIncreasing (input.startFallback input.initial)
      = (input.startFallback input.initial).goto (.fallbackDecreasing
          (input.initialWaterMarkLocal - percentageToIndex input.totalKeys 100)) := if_pos rfl
  have hlast : input.step ((input.startFallback input.initial).goto (.fallbackDecreasing
      (input.initialWaterMarkLocal - percentageToIndex input.totalKeys 100)))
        = some ((input.startFallback input.initial).goto .finished) :=
    congrArg some (stepFallbackDecreasing_of_flagOff rfl _)
  refine .next hfirst (.next hsecond (.next hthird ?_))
  rw [hfourth]
  refine .next hlast (.done rfl ?_)
  show (publishedCutoffs input.cdf input.initial.best.waterMarkLocal).isSome
  rw [hbest]
  rfl

/-- Enough percents more lead out of the cache. -/
theorem leavesPlateau_of_fits (hfits : input.FitsInt) (hkeys : 100 ≤ input.totalKeys)
    {newLocal : UInt64}
    (hnear : 3 * newLocal.toNat ≤ input.cacheSize.toNat + 3 * (input.totalKeys / 100))
    (best : BestSplit) :
    ∃ percents, 1 ≤ percents ∧ input.LeavesPlateau best (input.percentsUp newLocal percents) := by
  have hcache := hfits.cacheSize
  have hlist := hfits.totalKeys
  refine ⟨2 ^ 31, by decide, Or.inl ?_⟩
  have hthree : (3 : UInt64).toNat = 3 := rfl
  have hpercent := @toNat_percentageToIndex input.totalKeys (by omega) 100 (le_refl 100)
  have hmany : (UInt64.ofNat (2 ^ 31)).toNat = 2 ^ 31 := rfl
  have hup : (input.percentsUp newLocal (2 ^ 31)).toNat
      = newLocal.toNat + 2 ^ 31 * (input.totalKeys / 100) := by
    have hmul : (UInt64.ofNat (2 ^ 31) * percentageToIndex input.totalKeys 100).toNat
        = 2 ^ 31 * (input.totalKeys / 100) := by
      rw [toNat_mul_of_lt (by rw [hmany, hpercent]; omega), hmany, hpercent]
      omega
    rw [percentsUp, toNat_add_of_lt (by rw [hmul]; omega), hmul]
  have htriple : (input.percentsUp newLocal (2 ^ 31) * 3).toNat
      = 3 * (newLocal.toNat + 2 ^ 31 * (input.totalKeys / 100)) := by
    rw [toNat_mul_of_lt (by rw [hup, hthree]; omega), hup, hthree, Nat.mul_comm]
  have hremote := toNat_sub_emod input.cacheSize (input.percentsUp newLocal (2 ^ 31) * 3)
  have habove : input.cacheSize.toNat < (input.percentsUp newLocal (2 ^ 31) * 3).toNat := by omega
  have hbelow : (input.percentsUp newLocal (2 ^ 31) * 3).toNat < 2 ^ 64 := UInt64.toNat_lt _
  rw [ge_iff_le, UInt64.le_iff_toNat_le]
  omega

/-- With a step that is not `0`, an entry for every local mark and keys that are numbers, no state
of a run goes wrong. -/
theorem not_goesWrong_of_fits (hfits : input.FitsInt) (hkeys : 10000 ≤ input.totalKeys)
    (hentries : input.cacheSize.toNat < 3 * input.totalKeys)
    (hnumbers : ∀ e ∈ input.cdf.sortedKeyFreqs, (stoi e.key).isSome) {st : TunerState}
    (hrun : Runs input.step input.initial st) : ¬ input.GoesWrong st := by
  have hinv := TunerInvariant.of_runs hfits hrun
  intro hwrong
  cases hpc : st.pc with
  | increasing _ =>
      rw [GoesWrong, hpc] at hwrong
      exact hwrong
  | decreasing newLocal =>
      rw [GoesWrong, hpc] at hwrong
      exact hwrong.1 ((moves_iff hfits).mpr hkeys)
  | fallbackIncreasing newLocal newRemote =>
      have hnear := hinv.pc
      rw [PcOk, hpc] at hnear
      obtain ⟨percents, hone, hleaves⟩ :=
        leavesPlateau_of_fits hfits (by omega) hnear.1 st.best
      rw [GoesWrong, hpc] at hwrong
      exact hwrong.2.2 percents hone hleaves
  | fallbackDecreasing _ =>
      rw [GoesWrong, hpc] at hwrong
      exact hwrong
  | finished =>
      rw [GoesWrong, hpc] at hwrong
      refine hwrong ?_
      have hroom := hinv.best.room
      have hindex : st.best.waterMarkLocal.toNat < input.cdf.sortedKeyFreqs.length := by
        change _ < input.totalKeys
        omega
      rw [Publishes, publishedCutoffs]
      split
      · rw [List.getElem?_eq_getElem hindex, Option.bind_some, Option.isSome_map]
        exact hnumbers _ (List.getElem_mem hindex)
      · rfl

/-! ## The result -/

/-- **When the tuner finishes.** For every cdf, all latencies, every cache size and all initial
marks it finishes exactly if no state of its run goes wrong. If cache and list fit `int`, the marks
fill the cache, the cache does not hold every key of the list locally and the keys are numbers, then
it finishes exactly if the list has `10000` keys or there is no local key. -/
theorem finishes_iff (hsize : input.totalKeys < 2 ^ 64) :
    (input.Finishes ↔ ∀ st, Runs input.step input.initial st → ¬ input.GoesWrong st) ∧
      (input.FitsInt → input.cacheSize.toNat < 3 * input.totalKeys →
        (∀ e ∈ input.cdf.sortedKeyFreqs, (stoi e.key).isSome) →
          (input.Finishes ↔ 10000 ≤ input.totalKeys ∨ input.initialWaterMarkLocal.toNat = 0)) := by
  refine ⟨finishes_iff_never_wrong hsize, fun hfits hentries hnumbers => ?_⟩
  by_cases hkeys : 10000 ≤ input.totalKeys
  · exact iff_of_true ((finishes_iff_never_wrong hsize).mpr fun st hrun =>
      not_goesWrong_of_fits hfits hkeys hentries hnumbers hrun) (Or.inl hkeys)
  rw [not_le] at hkeys
  by_cases hzero : input.initialWaterMarkLocal.toNat = 0
  · exact iff_of_true (finishes_of_no_local hfits hkeys hzero) (Or.inr hzero)
  · refine iff_of_false (not_finishes_of_short hfits hkeys (Nat.pos_of_ne_zero hzero)) ?_
    rintro (hlong | hnone)
    · omega
    · exact hzero hnone

end TunerInput

/-- All three places of the cache for remote keys. -/
theorem finishes_iff_all_remote : ∃ cdf, getAndSortFreq [("1", 3), ("2", 1)] 2 = some cdf ∧
    TunerInput.Finishes ⟨cdf, tunerLatencies, 3, 0, 3⟩ := by
  obtain ⟨cdf, hrun, hlist⟩ := exists_cdf_three_and_one
  have hkeys : TunerInput.totalKeys ⟨cdf, tunerLatencies, 3, 0, 3⟩ = 2 := by
    rw [TunerInput.totalKeys, hlist]
    rfl
  have hcache : (3 : UInt64).toNat < 2 ^ 31 := by decide
  have hfits : TunerInput.FitsInt ⟨cdf, tunerLatencies, 3, 0, 3⟩ :=
    ⟨hcache, by rw [hkeys]; decide, rfl⟩
  have hentries : (3 : UInt64).toNat < 3 * TunerInput.totalKeys ⟨cdf, tunerLatencies, 3, 0, 3⟩ := by
    rw [hkeys]
    decide
  have hnumbers : ∀ e ∈ cdf.sortedKeyFreqs, (stoi e.key).isSome := by
    rw [hlist]
    decide
  exact ⟨cdf, hrun, ((TunerInput.finishes_iff (by rw [hkeys]; decide)).2 hfits hentries
    hnumbers).mpr (Or.inr rfl)⟩

/-- Two keys, the first of them local: the loop that decreases does not end. -/
theorem climb_stays_at_first_key : ∃ cdf, getAndSortFreq [("1", 3), ("2", 1)] 2 = some cdf ∧
    TunerInput.MarksFill ⟨cdf, tunerLatencies, 6, 1, 3⟩ ∧
      ¬ TunerInput.Finishes ⟨cdf, tunerLatencies, 6, 1, 3⟩ := by
  obtain ⟨cdf, hrun, hlist⟩ := exists_cdf_three_and_one
  have hkeys : TunerInput.totalKeys ⟨cdf, tunerLatencies, 6, 1, 3⟩ = 2 := by
    rw [TunerInput.totalKeys, hlist]
    rfl
  have hcache : (6 : UInt64).toNat < 2 ^ 31 := by decide
  have hlocal : 0 < (1 : UInt64).toNat := by decide
  have hfits : TunerInput.FitsInt ⟨cdf, tunerLatencies, 6, 1, 3⟩ :=
    ⟨hcache, by rw [hkeys]; decide, rfl⟩
  refine ⟨cdf, hrun, hfits.marks, TunerInput.not_finishes_of_short hfits ?_ hlocal⟩
  rw [hkeys]
  decide

end TwigKV.AccessRate
