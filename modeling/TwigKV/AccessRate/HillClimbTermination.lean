import TwigKV.AccessRate.HillClimb
import Mathlib.Order.Lattice.Nat
import Mathlib.Data.Prod.Lex
import Mathlib.Data.UInt

/-! # Termination of the hill-climbing tuner

Every round that improves has found a better performance, a 64-bit number, so there are finitely
many. Inside a round the loop that decreases needs a step that is not `0`: a hundredth of a percent
of the list, which is `0` for fewer than `10000` keys. Without it the loop evaluates one split again
and again, and only a performance that is worse than the best one ends it. The loop that increases
by a percent ends when the performance gets worse or the remote mark wraps to one outside the cache;
with a step of `0`, or one that jumps over these marks, it may do neither. And after the loops the
position of the cutoffs may lie outside the cdf.

* **`progress`** — what every iteration makes smaller, lexicographically.
* **`finishes_iff_never_wrong`** — the tuner finishes exactly if it never goes wrong. -/

namespace TwigKV.AccessRate

/-! ## Machine integers -/

/-- The conversion of an `int` to 64 bits. -/
theorem toNat_ofInt (value : ℤ) : ((UInt64.ofInt value).toNat : ℤ) = value % 2 ^ 64 := by
  have hlt : (value % 2 ^ 64).toNat < 2 ^ 64 := by omega
  rw [UInt64.ofInt, UInt64.toNat_ofNat_of_lt' hlt]
  omega

/-- A 64-bit difference. -/
theorem toNat_sub_emod (a b : UInt64) :
    ((a - b).toNat : ℤ) = ((a.toNat : ℤ) - b.toNat) % 2 ^ 64 := by
  have ha := a.toNat_lt
  have hb := b.toNat_lt
  rw [UInt64.toNat_sub]
  omega

/-- The range of `int`. -/
theorem wrapInt_bounds (value : ℤ) : -2 ^ 31 ≤ wrapInt value ∧ wrapInt value < 2 ^ 31 := by
  rw [wrapInt]
  omega

/-- A step in hundredths of a percent. -/
theorem toNat_percentageToIndex {totalSize : ℕ} (hsize : totalSize < 2 ^ 64) {hundredths : ℕ}
    (h : hundredths ≤ 100) :
    (percentageToIndex totalSize hundredths).toNat = totalSize * hundredths / 10000 := by
  have hmul : totalSize * hundredths ≤ totalSize * 100 := Nat.mul_le_mul_left _ h
  exact UInt64.toNat_ofNat_of_lt' (by change _ < 2 ^ 64; omega)

namespace TunerInput

variable {input : TunerInput}

/-- `new_remote` is computed modulo `2 ^ 32`. -/
theorem remoteFor_eq (newLocal : ℤ) :
    input.remoteFor newLocal = wrapInt (input.cacheSize.toNat - 3 * newLocal) := by
  rw [remoteFor, toNat_sub_emod, toNat_ofInt]
  simp only [wrapInt]
  omega

/-- The local mark that the loop that decreases tries next, modulo `2 ^ 32`. -/
theorem wrapInt_sub_percentageToIndex (hsize : input.totalKeys < 2 ^ 64) (newLocal : ℤ) :
    wrapInt (UInt64.ofInt newLocal - percentageToIndex input.totalKeys 1).toNat
      = wrapInt (newLocal - input.totalKeys / 10000) := by
  rw [toNat_sub_emod, toNat_ofInt, toNat_percentageToIndex hsize (by decide)]
  simp only [wrapInt]
  omega

/-! ## Where the tuner goes wrong -/

/-- A hundredth of a percent of the list is not `0` as an `int`. -/
def Moves (input : TunerInput) : Prop := input.totalKeys / 10000 % 2 ^ 32 ≠ 0

/-- A local mark after a number of percents more. -/
def percentsUp (input : TunerInput) (newLocal : UInt64) (percents : ℕ) : UInt64 :=
  newLocal + UInt64.ofNat percents * percentageToIndex input.totalKeys 100

/-- With this local mark the loop that increases by a percent ends or finds another performance. -/
def LeavesPlateau (input : TunerInput) (best : BestSplit) (newLocal : UInt64) : Prop :=
  input.cacheSize - newLocal * 3 ≥ input.cacheSize ∨
    calculatePerformance input.cdf newLocal (input.cacheSize - newLocal * 3) input.ns
      ≠ best.performance

/-- **The tuner goes wrong** in a state: the loop that decreases has a step of `0` and a split that
is neither better nor worse nor outside the cache; for the loop that increases by a percent all
splits to come are such splits; or there is no entry to publish. -/
def GoesWrong (input : TunerInput) (st : TunerState) : Prop :=
  match st.pc with
  | .decreasing newLocal =>
      ¬ input.Moves ∧ 0 < newLocal ∧ st.reducedPerfDecreasing = false ∧
        UInt64.ofInt (input.remoteFor newLocal) < input.cacheSize ∧
        calculatePerformance input.cdf (UInt64.ofInt newLocal)
          (UInt64.ofInt (input.remoteFor newLocal)) input.ns = st.best.performance
  | .fallbackIncreasing newLocal newRemote =>
      newRemote < input.cacheSize ∧ st.reducedPerfIncreasing = false ∧
        ∀ percents, 1 ≤ percents →
          ¬ input.LeavesPlateau st.best (input.percentsUp newLocal percents)
  | .finished => ¬ input.Publishes st
  | .increasing _ | .fallbackDecreasing _ => False

/-- One percent more. -/
theorem percentsUp_one (newLocal : UInt64) :
    input.percentsUp newLocal 1 = newLocal + percentageToIndex input.totalKeys 100 := by
  have hone : UInt64.ofNat 1 = 1 := by decide
  rw [percentsUp, hone, one_mul]

/-- The first of some percents more. -/
theorem percentsUp_succ (newLocal : UInt64) (percents : ℕ) :
    input.percentsUp (newLocal + percentageToIndex input.totalKeys 100) percents
      = input.percentsUp newLocal (percents + 1) := by
  have hone : UInt64.ofNat 1 = 1 := by decide
  rw [percentsUp, percentsUp, UInt64.ofNat_add, hone, add_mul, one_mul,
    add_comm (UInt64.ofNat percents * _), add_assoc]

/-! ## Progress -/

/-- The loops in order, the last one lowest. -/
def rank : TunerPc → ℕ
  | .increasing _ => 4
  | .decreasing _ => 3
  | .fallbackIncreasing _ _ => 2
  | .fallbackDecreasing _ => 1
  | .finished => 0

/-- How far the loop that decreases still has to go. Its step is an `int`, so it may go upwards. -/
def distance (input : TunerInput) (newLocal : ℤ) : ℕ :=
  if input.totalKeys / 10000 % 2 ^ 32 < 2 ^ 31 then newLocal.toNat else (2 ^ 31 - newLocal).toNat

/-- How far a loop still has to go: a `while` loop ends at once after a reduced performance. -/
noncomputable def counter (input : TunerInput) (st : TunerState) : ℕ :=
  match st.pc with
  | .increasing i => 4 - i
  | .decreasing newLocal =>
      if st.reducedPerfDecreasing then 0 else input.distance newLocal + 1
  | .fallbackIncreasing newLocal _ =>
      if st.reducedPerfIncreasing then 0
      else sInf {percents | 1 ≤ percents ∧
        input.LeavesPlateau st.best (input.percentsUp newLocal percents)}
  | .fallbackDecreasing _ | .finished => 0

/-- This round has improved. -/
def roundImproved (st : TunerState) : Bool := st.improvedIncreasing || st.improvedDecreasing

/-- **What every iteration makes smaller**: how far the best performance is from the largest number,
then whether another round is due, then the loop, then its counter. -/
noncomputable def progress (input : TunerInput) (st : TunerState) : ℕ ×ₗ ℕ ×ₗ ℕ ×ₗ ℕ :=
  toLex (2 ^ 64 - st.best.performance.toNat, toLex ((roundImproved st).toNat,
    toLex (rank st.pc, input.counter st)))

/-- A better performance is progress. -/
theorem progress_lt_of_performance {st st' : TunerState}
    (h : st.best.performance < st'.best.performance) :
    input.progress st' < input.progress st := by
  have hlt := UInt64.lt_iff_toNat_lt.mp h
  have hmax := st'.best.performance.toNat_lt
  refine Prod.Lex.toLex_lt_toLex.mpr (Or.inl ?_)
  simp only
  omega

/-- The beginning of another round is progress. -/
theorem progress_lt_of_round {st st' : TunerState}
    (hperf : st'.best.performance = st.best.performance) (h : roundImproved st = true)
    (h' : roundImproved st' = false) : input.progress st' < input.progress st := by
  rw [progress, progress, hperf, h, h']
  exact Prod.Lex.toLex_lt_toLex.mpr (Or.inr ⟨rfl, Prod.Lex.toLex_lt_toLex.mpr (Or.inl
    Nat.zero_lt_one)⟩)

/-- The next loop, or the next iteration of a loop, is progress. -/
theorem progress_lt_of_pc {st st' : TunerState}
    (hperf : st'.best.performance = st.best.performance)
    (hround : roundImproved st' = roundImproved st)
    (h : rank st'.pc < rank st.pc ∨
      rank st'.pc = rank st.pc ∧ input.counter st' < input.counter st) :
    input.progress st' < input.progress st := by
  rw [progress, progress, hperf, hround]
  exact Prod.Lex.toLex_lt_toLex.mpr (Or.inr ⟨rfl, Prod.Lex.toLex_lt_toLex.mpr (Or.inr
    ⟨rfl, Prod.Lex.toLex_lt_toLex.mpr h⟩)⟩)

/-- What `evaluate` does: it takes over a better performance, notes a worse one or does nothing. -/
theorem evaluate_cases (st : TunerState) (newLocal newRemote : UInt64)
    (onImproved onReduced : TunerState → TunerState) :
    (∃ newPerformance, st.best.performance < newPerformance ∧
        calculatePerformance input.cdf newLocal newRemote input.ns = newPerformance ∧
        input.evaluate st newLocal newRemote onImproved onReduced
          = onImproved { st with best := ⟨newPerformance, newLocal, newRemote⟩ }) ∨
      input.evaluate st newLocal newRemote onImproved onReduced = onReduced st ∨
      calculatePerformance input.cdf newLocal newRemote input.ns = st.best.performance ∧
        input.evaluate st newLocal newRemote onImproved onReduced = st := by
  rw [evaluate]
  split
  · next h => exact Or.inl ⟨_, h, rfl, rfl⟩
  · next hnotMore =>
    split
    · exact Or.inr (Or.inl rfl)
    · next hnotLess =>
      exact Or.inr (Or.inr ⟨le_antisymm (not_lt.mp hnotMore) (not_lt.mp hnotLess), rfl⟩)

/-- The loop that increases by a percent leaves the flag of the other direction alone. -/
theorem reducedPerfDecreasing_evaluate (input : TunerInput) (st : TunerState)
    (newLocal newRemote : UInt64) :
    (input.evaluate st newLocal newRemote (fun st => { st with improvedIncreasing := true })
      (fun st => { st with reducedPerfIncreasing := true })).reducedPerfDecreasing
        = st.reducedPerfDecreasing := by
  rw [evaluate]
  dsimp only
  split
  · rfl
  · split
    · rfl
    · rfl

/-- The performance that is the best one already changes nothing. -/
theorem evaluate_of_eq {st : TunerState} {newLocal newRemote : UInt64}
    (h : calculatePerformance input.cdf newLocal newRemote input.ns = st.best.performance)
    (onImproved onReduced : TunerState → TunerState) :
    input.evaluate st newLocal newRemote onImproved onReduced = st := by
  rw [evaluate, h]
  simp

/-- An evaluation is progress where it goes on in the same loop with a smaller counter. -/
theorem progress_evaluate_goto {st : TunerState} {newLocal newRemote : UInt64}
    {onImproved onReduced : TunerState → TunerState} {pc : TunerPc}
    (himproved : ∀ st, (onImproved st).best = st.best)
    (hreduced : ∀ st, (onReduced st).best = st.best ∧
      roundImproved (onReduced st) = roundImproved st)
    (hrank : rank pc = rank st.pc)
    (hcounter : input.counter ((onReduced st).goto pc) < input.counter st)
    (hcounter' : calculatePerformance input.cdf newLocal newRemote input.ns = st.best.performance →
      input.counter (st.goto pc) < input.counter st) :
    input.progress ((input.evaluate st newLocal newRemote onImproved onReduced).goto pc)
      < input.progress st := by
  rcases input.evaluate_cases st newLocal newRemote onImproved onReduced with
    ⟨newPerformance, hlt, -, heq⟩ | heq | ⟨hsame, heq⟩
  · apply progress_lt_of_performance
    rw [heq, TunerState.goto, himproved]
    exact hlt
  · have hkept := hreduced st
    rw [heq]
    exact progress_lt_of_pc (congrArg BestSplit.performance hkept.1) hkept.2
      (Or.inr ⟨hrank, hcounter⟩)
  · rw [heq]
    exact progress_lt_of_pc rfl rfl (Or.inr ⟨hrank, hcounter' hsame⟩)

/-- The end of a round is progress. -/
theorem progress_endRound {st : TunerState} (hrank : 2 < rank st.pc) :
    input.progress (input.endRound st) < input.progress st := by
  rw [endRound]
  split
  · next h => exact progress_lt_of_round rfl h rfl
  next h =>
  have hround : roundImproved st = false := Bool.eq_false_iff.mpr h
  split
  · exact progress_lt_of_pc rfl (by rw [hround]; rfl) (Or.inl hrank)
  · exact progress_lt_of_pc rfl rfl (Or.inl (lt_trans Nat.zero_lt_two hrank))

/-- An iteration of the `for` loop is progress. -/
theorem progress_stepIncreasing {st : TunerState} {i : ℕ} (hpc : st.pc = .increasing i) :
    input.progress (input.stepIncreasing st i) < input.progress st := by
  rw [stepIncreasing]
  split
  · rw [endIncreasing]
    split
    · exact progress_lt_of_pc rfl rfl (Or.inl (by rw [hpc]; exact Nat.lt_succ_self 3))
    · exact progress_endRound (by rw [hpc]; exact Nat.lt_add_of_pos_right Nat.zero_lt_two)
  · next hin =>
    have hless : 4 - (i + 1) < input.counter st := by
      rw [counter, hpc]
      simp only
      omega
    exact progress_evaluate_goto (fun _ => rfl) (fun _ => ⟨rfl, rfl⟩) (by rw [hpc]; rfl) hless
      fun _ => hless

/-- The distance goes down where the step is not `0`. -/
theorem distance_lt (hmoves : input.Moves) {newLocal : ℤ} (hpos : 0 < newLocal)
    (hlt : newLocal < 2 ^ 31) (hnext : 0 ≤ wrapInt (newLocal - input.totalKeys / 10000)) :
    input.distance (wrapInt (newLocal - input.totalKeys / 10000)) < input.distance newLocal := by
  rw [Moves] at hmoves
  rw [distance, distance]
  rw [wrapInt] at hnext ⊢
  split
  · omega
  · omega

/-- A step of `0` leaves the local mark. -/
theorem wrapInt_sub_stays (hstays : ¬ input.Moves) {newLocal : ℤ} (hpos : 0 < newLocal)
    (hlt : newLocal < 2 ^ 31) : wrapInt (newLocal - input.totalKeys / 10000) = newLocal := by
  rw [Moves, not_not] at hstays
  rw [wrapInt]
  omega

/-- An iteration of the loop that decreases is progress where the tuner does not go wrong. -/
theorem progress_stepDecreasing (hsize : input.totalKeys < 2 ^ 64) {st : TunerState} {newLocal : ℤ}
    (hright : ¬ input.GoesWrong st) (hpc : st.pc = .decreasing newLocal) (hlt : newLocal < 2 ^ 31) :
    input.progress (input.stepDecreasing st newLocal) < input.progress st := by
  have hend : input.progress (input.endRound st) < input.progress st :=
    progress_endRound (by rw [hpc]; exact Nat.lt_succ_self 2)
  rw [stepDecreasing, wrapInt_sub_percentageToIndex hsize]
  split
  · next hloop =>
    dsimp only
    split
    · exact hend
    · next hin =>
      rw [not_or, Int.not_lt, not_le] at hin
      have hcounter : input.counter st = input.distance newLocal + 1 := by
        rw [counter, hpc]
        simp only
        rw [hloop.2, if_neg Bool.false_ne_true]
      refine progress_evaluate_goto (fun _ => rfl) (fun _ => ⟨rfl, rfl⟩) (by rw [hpc]; rfl) ?_
        fun hsame => ?_
      · rw [hcounter]
        exact Nat.succ_pos _
      · by_cases hmoves : input.Moves
        · have hless := distance_lt hmoves hloop.1 hlt hin.1
          rw [hcounter]
          change (if st.reducedPerfDecreasing then 0 else _) < _
          rw [hloop.2, if_neg Bool.false_ne_true]
          exact Nat.succ_lt_succ hless
        · -- the same split again, neither better nor worse
          rw [wrapInt_sub_stays hmoves hloop.1 hlt] at hin hsame
          rw [GoesWrong, hpc] at hright
          exact absurd ⟨hmoves, hloop.1, hloop.2, hin.2, hsame⟩ hright
  · exact hend

/-- An iteration of the loop that increases by a percent is progress where the tuner does not go
wrong. -/
theorem progress_stepFallbackIncreasing {st : TunerState} {newLocal newRemote : UInt64}
    (hright : ¬ input.GoesWrong st) (hpc : st.pc = .fallbackIncreasing newLocal newRemote) :
    input.progress (input.stepFallbackIncreasing st newLocal newRemote) < input.progress st := by
  have hend : input.progress (input.endFallbackIncreasing st) < input.progress st := by
    rw [endFallbackIncreasing]
    split
    · exact progress_lt_of_pc rfl rfl (Or.inl (by rw [hpc]; exact Nat.one_lt_two))
    · exact progress_lt_of_pc rfl rfl (Or.inl (by rw [hpc]; exact Nat.zero_lt_two))
  rw [stepFallbackIncreasing]
  split
  · next hloop =>
    -- some number of percents leads off the plateau, and it is one less after this iteration
    have hcounter : input.counter st = sInf {percents | 1 ≤ percents ∧
        input.LeavesPlateau st.best (input.percentsUp newLocal percents)} := by
      rw [counter, hpc]
      simp only
      rw [hloop.2, if_neg Bool.false_ne_true]
    rw [GoesWrong, hpc] at hright
    have hleaves : {percents | 1 ≤ percents ∧
        input.LeavesPlateau st.best (input.percentsUp newLocal percents)}.Nonempty := by
      by_contra hnone
      rw [Set.not_nonempty_iff_eq_empty] at hnone
      exact hright ⟨hloop.1, hloop.2, fun percents hone hleaves =>
        Set.notMem_empty percents (hnone ▸ ⟨hone, hleaves⟩)⟩
    obtain ⟨hone, hfirst⟩ := Nat.sInf_mem hleaves
    rw [← hcounter] at hone hfirst
    dsimp only
    split
    · exact hend
    · next hin =>
      refine progress_evaluate_goto (fun _ => rfl) (fun _ => ⟨rfl, rfl⟩) (by rw [hpc]; rfl) hone
        fun hsame => ?_
      change (if st.reducedPerfIncreasing then 0 else _) < _
      rw [hloop.2, if_neg Bool.false_ne_true]
      obtain ⟨before, hbefore⟩ := Nat.exists_eq_add_of_le' hone
      rw [hbefore] at hfirst ⊢
      refine Nat.lt_succ_of_le (Nat.sInf_le ⟨?_, ?_⟩)
      · refine Nat.one_le_iff_ne_zero.mpr fun hzero => ?_
        rw [hzero, zero_add, percentsUp_one] at hfirst
        rcases hfirst with hout | hother
        · exact hin hout
        · exact hother hsame
      · rw [percentsUp_succ]
        exact hfirst
  · exact hend

/-! ## Runs -/

/-- What holds in every state of a run. -/
structure OnTheWay (st : TunerState) : Prop where
  /-- The local mark of the loop that decreases is an `int`. -/
  isInt : ∀ newLocal, st.pc = .decreasing newLocal → newLocal < 2 ^ 31
  /-- After the climb no reduced performance is noted for the loop that decreases by a percent. -/
  flagOff : rank st.pc = 1 ∨ rank st.pc = 2 → st.reducedPerfDecreasing = false

/-- In the loop that increases and after the loops nothing is asked for. -/
theorem onTheWay_of_rank {st : TunerState} (hrank : rank st.pc = 4 ∨ rank st.pc = 0) :
    OnTheWay st := by
  constructor
  · intro newLocal h
    rw [h] at hrank
    rcases hrank with h | h
    · cases h
    · cases h
  · intro h
    omega

/-- The climb goes down. -/
theorem onTheWay_decreasing {st : TunerState} {newLocal : ℤ} (hpc : st.pc = .decreasing newLocal)
    (hlt : newLocal < 2 ^ 31) : OnTheWay st := by
  constructor
  · intro newLocal' h
    rw [hpc] at h
    cases h
    exact hlt
  · intro h
    rw [hpc] at h
    rcases h with h | h
    · cases h
    · cases h

/-- The climb is over. -/
theorem onTheWay_of_rank_le {st : TunerState} (hrank : rank st.pc ≤ 2)
    (hoff : st.reducedPerfDecreasing = false) : OnTheWay st := by
  constructor
  · intro newLocal h
    rw [h] at hrank
    exact absurd hrank (Nat.not_succ_le_self 2)
  · exact fun _ => hoff

/-- After a round. -/
theorem onTheWay_endRound (st : TunerState) : OnTheWay (input.endRound st) := by
  rw [endRound]
  split
  · exact onTheWay_of_rank (Or.inl rfl)
  · split
    · exact onTheWay_of_rank_le (Nat.le_refl 2) rfl
    · exact onTheWay_of_rank (Or.inr rfl)

/-- After an iteration of the `for` loop. -/
theorem onTheWay_stepIncreasing (st : TunerState) (i : ℕ) :
    OnTheWay (input.stepIncreasing st i) := by
  rw [stepIncreasing]
  split
  · rw [endIncreasing]
    split
    · exact onTheWay_decreasing rfl (wrapInt_bounds _).2
    · exact onTheWay_endRound st
  · exact onTheWay_of_rank (Or.inl rfl)

/-- After an iteration of the loop that decreases. -/
theorem onTheWay_stepDecreasing (st : TunerState) (newLocal : ℤ) :
    OnTheWay (input.stepDecreasing st newLocal) := by
  rw [stepDecreasing]
  split
  · dsimp only
    split
    · exact onTheWay_endRound st
    · exact onTheWay_decreasing rfl (wrapInt_bounds _).2
  · exact onTheWay_endRound st

/-- After an iteration of the loop that increases by a percent. -/
theorem onTheWay_stepFallbackIncreasing {st : TunerState}
    (hoff : st.reducedPerfDecreasing = false) (newLocal newRemote : UInt64) :
    OnTheWay (input.stepFallbackIncreasing st newLocal newRemote) := by
  have hend : OnTheWay (input.endFallbackIncreasing st) := by
    rw [endFallbackIncreasing]
    split
    · exact onTheWay_of_rank_le (Nat.le_succ 1) hoff
    · exact onTheWay_of_rank (Or.inr rfl)
  rw [stepFallbackIncreasing]
  split
  · dsimp only
    split
    · exact hend
    · exact onTheWay_of_rank_le (Nat.le_refl 2)
        ((input.reducedPerfDecreasing_evaluate st _ _).trans hoff)
  · exact hend

/-- The loop that decreases by a percent never runs: it asks for a reduced performance. -/
theorem stepFallbackDecreasing_of_flagOff {st : TunerState}
    (hoff : st.reducedPerfDecreasing = false)
    (newLocal : UInt64) : input.stepFallbackDecreasing st newLocal = st.goto .finished := by
  refine if_neg fun hloop => ?_
  rw [hoff] at hloop
  cases hloop.2

/-- Every iteration leads to a state on the way. -/
theorem OnTheWay.step {st st' : TunerState} (h : OnTheWay st) (hstep : input.step st = some st') :
    OnTheWay st' := by
  rw [TunerInput.step] at hstep
  split at hstep
  case h_1 i hpc =>
    rw [← Option.some.inj hstep]
    exact onTheWay_stepIncreasing st i
  case h_2 newLocal hpc =>
    rw [← Option.some.inj hstep]
    exact onTheWay_stepDecreasing st newLocal
  case h_3 newLocal newRemote hpc =>
    rw [← Option.some.inj hstep]
    exact onTheWay_stepFallbackIncreasing (h.flagOff (by rw [hpc]; exact Or.inr rfl)) _ _
  case h_4 newLocal hpc =>
    rw [← Option.some.inj hstep,
      stepFallbackDecreasing_of_flagOff (h.flagOff (by rw [hpc]; exact Or.inl rfl))]
    exact onTheWay_of_rank (Or.inr rfl)
  case h_5 => cases hstep

/-- **Every iteration is progress** where the tuner does not go wrong. -/
theorem OnTheWay.progress_lt (hsize : input.totalKeys < 2 ^ 64) {st st' : TunerState}
    (h : OnTheWay st) (hright : ¬ input.GoesWrong st) (hstep : input.step st = some st') :
    input.progress st' < input.progress st := by
  rw [TunerInput.step] at hstep
  split at hstep
  case h_1 i hpc =>
    rw [← Option.some.inj hstep]
    exact progress_stepIncreasing hpc
  case h_2 newLocal hpc =>
    rw [← Option.some.inj hstep]
    exact progress_stepDecreasing hsize hright hpc (h.isInt newLocal hpc)
  case h_3 newLocal newRemote hpc =>
    rw [← Option.some.inj hstep]
    exact progress_stepFallbackIncreasing hright hpc
  case h_4 newLocal hpc =>
    rw [← Option.some.inj hstep,
      stepFallbackDecreasing_of_flagOff (h.flagOff (by rw [hpc]; exact Or.inl rfl))]
    exact progress_lt_of_pc rfl rfl (Or.inl (by rw [hpc]; exact Nat.zero_lt_one))
  case h_5 => cases hstep

/-- The loop that decreases by `0` does not end. -/
theorem not_endsIn_of_decreasing (hsize : input.totalKeys < 2 ^ 64) {st : TunerState} {newLocal : ℤ}
    (hpc : st.pc = .decreasing newLocal) (hlt : newLocal < 2 ^ 31) (h : input.GoesWrong st) :
    ¬ EndsIn input.step input.Publishes st := by
  rw [GoesWrong, hpc] at h
  obtain ⟨hstays, hpos, hflag, hless, hsame⟩ := h
  have hmark := wrapInt_sub_stays hstays hpos hlt
  have hin : ¬ (newLocal < 0 ∨ UInt64.ofInt (input.remoteFor newLocal) ≥ input.cacheSize) := by
    rw [not_or]
    exact ⟨not_lt.mpr (le_of_lt hpos), not_le.mpr hless⟩
  have hgoto : st.goto (.decreasing newLocal) = st := by
    rw [← hpc]
    rfl
  have hself : input.step st = some st := by
    rw [step, hpc]
    dsimp only
    rw [stepDecreasing, if_pos ⟨hpos, hflag⟩, wrapInt_sub_percentageToIndex hsize, hmark]
    dsimp only
    rw [if_neg hin, evaluate_of_eq hsame, hgoto]
  refine @not_endsIn_of_invariant _ input.step _ (fun s => s = st) (fun s hs => ?_) _ rfl
  rw [hs]
  exact ⟨st, hself, rfl⟩

/-- The loop that increases by a percent does not end on a plateau. -/
theorem not_endsIn_of_fallbackIncreasing {st : TunerState} {newLocal newRemote : UInt64}
    (hpc : st.pc = .fallbackIncreasing newLocal newRemote) (h : input.GoesWrong st) :
    ¬ EndsIn input.step input.Publishes st := by
  refine @not_endsIn_of_invariant _ input.step _ (fun s => input.GoesWrong s ∧
    ∃ newLocal newRemote, s.pc = .fallbackIncreasing newLocal newRemote) (fun s hs => ?_) _
    ⟨h, newLocal, newRemote, hpc⟩
  obtain ⟨hwrong, newLocal, newRemote, hpc⟩ := hs
  rw [GoesWrong, hpc] at hwrong
  obtain ⟨hless, hflag, hplateau⟩ := hwrong
  obtain ⟨next, hnext⟩ : ∃ next, newLocal + percentageToIndex input.totalKeys 100 = next := ⟨_, rfl⟩
  -- the next split is on the plateau, and so are those after it
  have hfirst := hplateau 1 (le_refl 1)
  rw [percentsUp_one, hnext, LeavesPlateau, not_or, not_not] at hfirst
  have hstep : input.step s
      = some (s.goto (.fallbackIncreasing next (input.cacheSize - next * 3))) := by
    rw [step, hpc]
    dsimp only
    rw [stepFallbackIncreasing, if_pos ⟨hless, hflag⟩]
    dsimp only
    rw [hnext, if_neg hfirst.1, evaluate_of_eq hfirst.2]
  refine ⟨_, hstep, ?_, next, _, rfl⟩
  refine ⟨not_le.mp hfirst.1, hflag, fun percents _ => ?_⟩
  rw [← hnext, percentsUp_succ]
  exact hplateau (percents + 1) (Nat.succ_pos percents)

/-- **Once the tuner has gone wrong it does not finish.** -/
theorem GoesWrong.not_endsIn (hsize : input.totalKeys < 2 ^ 64) {st : TunerState}
    (h : input.GoesWrong st) (hway : OnTheWay st) : ¬ EndsIn input.step input.Publishes st := by
  cases hpc : st.pc with
  | decreasing newLocal =>
      exact not_endsIn_of_decreasing hsize hpc (hway.isInt newLocal hpc) h
  | fallbackIncreasing newLocal newRemote => exact not_endsIn_of_fallbackIncreasing hpc h
  | finished =>
      intro hends
      rw [GoesWrong, hpc] at h
      exact h (hends.of_none (by rw [step, hpc]))
  | increasing i =>
      rw [GoesWrong, hpc] at h
      exact h.elim
  | fallbackDecreasing newLocal =>
      rw [GoesWrong, hpc] at h
      exact h.elim

/-- **When the tuner finishes**: exactly if it never goes wrong. -/
theorem finishes_iff_never_wrong (hsize : input.totalKeys < 2 ^ 64) :
    input.Finishes ↔ ∀ st, Runs input.step input.initial st → ¬ input.GoesWrong st := by
  refine endsIn_iff input.progress (fun st hway hwrong => hwrong.not_endsIn hsize hway)
    (fun st hright hend => ?_) (fun st st' hway hstep => hway.step hstep)
    (fun st st' hway hright hstep => hway.progress_lt hsize hright hstep)
    (onTheWay_of_rank (Or.inl rfl))
  -- a state without a step is one after the loops
  cases hpc : st.pc with
  | finished =>
      rw [GoesWrong, hpc, not_not] at hright
      exact hright
  | increasing _ =>
      rw [step, hpc] at hend
      cases hend
  | decreasing _ =>
      rw [step, hpc] at hend
      cases hend
  | fallbackIncreasing _ _ =>
      rw [step, hpc] at hend
      cases hend
  | fallbackDecreasing _ =>
      rw [step, hpc] at hend
      cases hend

end TunerInput

end TwigKV.AccessRate
