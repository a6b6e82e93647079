import TwigKV.AccessRate.Performance
import TwigKV.Foundations.Halting

/-! # The hill-climbing tuner (`get_best_access_rates`)

The tuner starts from the water marks in use and moves the local one by hundredths of a percent of
the list, up three times and down as long as this does not get worse, until neither direction
improves. If nothing has improved it tries steps of a percent. Every loop iteration is a step of a
state machine. After the loops the tuner publishes the cutoffs found at its local mark in the cdf.
It does so without asking whether there is an entry.

Marks are `uint64_t`, but inside the climb the new ones are `int`: they are converted to 32 bits
when they are assigned, and back to 64 bits where they are compared with unsigned numbers or passed
on. A product that overflows `int` is taken modulo `2 ^ 32`. Percentages and thresholds are read as
exact numbers. -/

namespace TwigKV.AccessRate

/-- The conversion to `int`: modulo `2 ^ 32`. -/
def wrapInt (value : ℤ) : ℤ := (value + 2 ^ 31) % 2 ^ 32 - 2 ^ 31

/-- `percentage_to_index`, with the percentage in hundredths. -/
def percentageToIndex (totalSize hundredths : ℕ) : UInt64 :=
  UInt64.ofNat (totalSize * hundredths / 10000)

/-- What `get_best_access_rates` is called with. -/
structure TunerInput where
  /-- `cdf`. -/
  cdf : CDFType
  /-- The latencies. -/
  ns : Latencies
  /-- `cache_size`. -/
  cacheSize : UInt64
  /-- `initial_water_mark_local`. -/
  initialWaterMarkLocal : UInt64
  /-- `initial_water_mark_remote`. -/
  initialWaterMarkRemote : UInt64

/-- The loop the tuner is in, with the variables of that loop. -/
inductive TunerPc where
  /-- "Test increasing L". -/
  | increasing (i : ℕ)
  /-- "Test decreasing L". -/
  | decreasing (newLocal : ℤ)
  /-- The loop that increases by a percent. -/
  | fallbackIncreasing (newLocal newRemote : UInt64)
  /-- The loop that decreases by a percent. -/
  | fallbackDecreasing (newLocal : UInt64)
  /-- After the loops. -/
  | finished
deriving DecidableEq, Repr

/-- The state of the tuner. The last `if` block declares the four flags anew. -/
structure TunerState where
  /-- Where it is. -/
  pc : TunerPc
  /-- `best_performance`, `best_local` and `best_remote`. -/
  best : BestSplit
  /-- `improved_increasing`. -/
  improvedIncreasing : Bool
  /-- `improved_decreasing`. -/
  improvedDecreasing : Bool
  /-- `reduced_perf_increasing`. -/
  reducedPerfIncreasing : Bool
  /-- `reduced_perf_decreasing`. -/
  reducedPerfDecreasing : Bool
  /-- `improved`. -/
  improved : Bool

/-- The tuner goes on to a loop. -/
def TunerState.goto (st : TunerState) (pc : TunerPc) : TunerState := { st with pc := pc }

namespace TunerInput

variable (input : TunerInput)

/-- The size of the list. -/
def totalKeys : ℕ := input.cdf.sortedKeyFreqs.length

/-- `int new_remote = cache_size - (new_local * 3)`. -/
def remoteFor (newLocal : ℤ) : ℤ :=
  wrapInt (input.cacheSize - UInt64.ofInt (wrapInt (newLocal * 3))).toNat

/-- The comparison of a new performance with the best one. -/
def evaluate (st : TunerState) (newLocal newRemote : UInt64)
    (onImproved onReduced : TunerState → TunerState) : TunerState :=
  let newPerformance := calculatePerformance input.cdf newLocal newRemote input.ns
  if newPerformance > st.best.performance then
    onImproved { st with best := ⟨newPerformance, newLocal, newRemote⟩ }
  else if newPerformance < st.best.performance then onReduced st
  else st

/-- The beginning of the `do` loop. -/
def startRound (st : TunerState) : TunerState :=
  { st with
    pc := .increasing 1
    improvedIncreasing := false
    improvedDecreasing := false
    reducedPerfIncreasing := false
    reducedPerfDecreasing := false }

/-- The beginning of the `if` block after it, "No improvement in either round". -/
def startFallback (st : TunerState) : TunerState :=
  { st with
    pc := .fallbackIncreasing
      (st.best.waterMarkLocal + percentageToIndex input.totalKeys 100)
      (input.cacheSize - st.best.waterMarkLocal * 3)
    improvedIncreasing := false
    improvedDecreasing := false
    reducedPerfIncreasing := false
    reducedPerfDecreasing := false }

/-- The end of the `do` loop. -/
def endRound (st : TunerState) : TunerState :=
  if st.improvedIncreasing || st.improvedDecreasing then startRound st
  else if !st.improved then input.startFallback st
  else st.goto .finished

/-- After the `for` loop. -/
def endIncreasing (st : TunerState) : TunerState :=
  if !st.improvedIncreasing then st.goto (.decreasing (wrapInt st.best.waterMarkLocal.toNat))
  else input.endRound st

/-- After the loop that increases by a percent. -/
def endFallbackIncreasing (st : TunerState) : TunerState :=
  if st.best.waterMarkLocal = input.initialWaterMarkLocal then
    st.goto (.fallbackDecreasing
      (st.best.waterMarkLocal - percentageToIndex input.totalKeys 100))
  else st.goto .finished

/-- An iteration of the `for` loop. -/
def stepIncreasing (st : TunerState) (i : ℕ) : TunerState :=
  let newLocal := wrapInt (st.best.waterMarkLocal + percentageToIndex input.totalKeys i).toNat
  let newRemote := input.remoteFor newLocal
  if 3 < i ∨ newRemote < 0 ∨ UInt64.ofInt newLocal > input.cacheSize / 3 ∨
      UInt64.ofInt newRemote ≥ input.cacheSize then input.endIncreasing st
  else
    (input.evaluate st (UInt64.ofInt newLocal) (UInt64.ofInt newRemote)
      (fun st => { st with improvedIncreasing := true, improved := true })
      (fun st => { st with reducedPerfIncreasing := true })).goto (.increasing (i + 1))

/-- An iteration of the loop that decreases. -/
def stepDecreasing (st : TunerState) (newLocal : ℤ) : TunerState :=
  if 0 < newLocal ∧ st.reducedPerfDecreasing = false then
    let newLocal := wrapInt (UInt64.ofInt newLocal - percentageToIndex input.totalKeys 1).toNat
    let newRemote := input.remoteFor newLocal
    if newLocal < 0 ∨ UInt64.ofInt newRemote ≥ input.cacheSize then input.endRound st
    else
      (input.evaluate st (UInt64.ofInt newLocal) (UInt64.ofInt newRemote)
        (fun st => { st with improvedDecreasing := true, improved := true })
        (fun st => { st with reducedPerfDecreasing := true })).goto (.decreasing newLocal)
  else input.endRound st

/-- An iteration of the loop that increases by a percent. -/
def stepFallbackIncreasing (st : TunerState) (newLocal newRemote : UInt64) : TunerState :=
  if newRemote < input.cacheSize ∧ st.reducedPerfIncreasing = false then
    let newLocal := newLocal + percentageToIndex input.totalKeys 100
    let newRemote := input.cacheSize - newLocal * 3
    if newRemote ≥ input.cacheSize then input.endFallbackIncreasing st
    else
      (input.evaluate st newLocal newRemote
        (fun st => { st with improvedIncreasing := true })
        (fun st => { st with reducedPerfIncreasing := true })).goto
          (.fallbackIncreasing newLocal newRemote)
  else input.endFallbackIncreasing st

/-- An iteration of the loop that decreases by a percent. It asks for a reduced performance, where
the other loops ask for none. -/
def stepFallbackDecreasing (st : TunerState) (newLocal : UInt64) : TunerState :=
  if newLocal > 0 ∧ st.reducedPerfDecreasing = true then
    let newRemote := input.cacheSize - newLocal * 3
    -- a better performance leaves the loop
    input.evaluate
      (st.goto (.fallbackDecreasing (newLocal - percentageToIndex input.totalKeys 100)))
      newLocal newRemote
      (fun st => { st with improvedIncreasing := true, pc := .finished })
      (fun st => { st with reducedPerfDecreasing := true })
  else st.goto .finished

/-- One iteration of the loop the tuner is in, `none` after the loops. -/
def step (st : TunerState) : Option TunerState :=
  match st.pc with
  | .increasing i => some (input.stepIncreasing st i)
  | .decreasing newLocal => some (input.stepDecreasing st newLocal)
  | .fallbackIncreasing newLocal newRemote =>
      some (input.stepFallbackIncreasing st newLocal newRemote)
  | .fallbackDecreasing newLocal => some (input.stepFallbackDecreasing st newLocal)
  | .finished => none

/-- The state before the loops. -/
def initial : TunerState :=
  startRound
    { pc := .increasing 1
      best := ⟨calculatePerformance input.cdf input.initialWaterMarkLocal
        input.initialWaterMarkRemote input.ns, input.initialWaterMarkLocal,
        input.initialWaterMarkRemote⟩
      improvedIncreasing := false
      improvedDecreasing := false
      reducedPerfIncreasing := false
      reducedPerfDecreasing := false
      improved := false }

/-- What stands after the loops: there is an entry for the cutoffs, and `std::stoi` reads its
key. -/
def Publishes (st : TunerState) : Prop :=
  (publishedCutoffs input.cdf st.best.waterMarkLocal).isSome

/-- **The tuner finishes**: its loops end, and what they have found can be published. -/
def Finishes : Prop := EndsIn input.step input.Publishes input.initial

/-- The initial marks share the cache: three copies of a local key, one of a remote one. -/
def MarksFill : Prop :=
  3 * input.initialWaterMarkLocal.toNat + input.initialWaterMarkRemote.toNat
    = input.cacheSize.toNat

end TunerInput

/-- The latencies of the tuners run below. -/
def tunerLatencies : Latencies := ⟨100, 10000, 1000⟩

end TwigKV.AccessRate
