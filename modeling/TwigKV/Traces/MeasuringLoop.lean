import TwigKV.Foundations.LabelledRun
import TwigKV.Traces.TraceExecution

/-! # The measuring loop of `execute_operations` (`ldc.cpp`)

A client passes over its operations again and again until its run time is over. On the way it
compares the values, counts the operations and, once the warm-up is over, notes the latency of every
operation; it breaks off a pass when the run time with the warm-up has passed. The readings of the
clock and the values returned are the environment's. `TOTAL_RUNTIME_IN_SECONDS`, a `float`, is a
whole number of seconds here, for which its comparisons are exact, and `wrong_value`, an `int`, is a
number here, which it is as long as fewer than `2 ^ 31` values are wrong.

What the loop sends are passes of `executeOperations`, and what it has counted and noted belongs to
the operations that it has executed (`measuringLoop_measures`). -/

namespace TwigKV.Traces

/-! ## The loop -/

/-- `WARMUP_TIME_IN_SECONDS`. -/
def warmupTimeInSeconds : ℕ := 60

/-- `duration_cast<seconds>` of nanoseconds. -/
def seconds (nanoseconds : ℕ) : ℕ := nanoseconds / 1000000000

/-- What `execute_operations` is called with. -/
structure LoopConfig where
  /-- `operation_set`. -/
  operationSet : List Operation
  /-- `client_start_index`. -/
  clientStartIndex : ℤ
  /-- `thread_index`. -/
  threadIndex : ℕ
  /-- `NUM_NODES`. -/
  numNodes : ℕ
  /-- `VALUE_SIZE`. -/
  valueSize : ℕ
  /-- `TOTAL_RUNTIME_IN_SECONDS`, in whole seconds. -/
  totalRuntimeInSeconds : ℕ

/-- The value that every answer is compared with. -/
def LoopConfig.value (config : LoopConfig) : String :=
  String.ofList (List.replicate config.valueSize 'A')

/-- The request for an operation. -/
def LoopConfig.request (config : LoopConfig) (operation : Operation) : Request :=
  .get (operation.node.toInt + config.clientStartIndex) config.threadIndex operation.key

/-- One pass over the operations without a clock. -/
def LoopConfig.pass (config : LoopConfig) (operationSet : List Operation) :
    List Request × PassEnd :=
  executeOperations config.clientStartIndex config.numNodes config.threadIndex operationSet

/-- An operation that has been executed; the readings are nanoseconds since `op_start`. -/
structure Execution where
  /-- The operation. -/
  operation : Operation
  /-- `io_start`. -/
  ioStart : ℕ
  /-- The reading when the value is there. -/
  finished : ℕ
  /-- The reading that the run time is taken from. -/
  now : ℕ
  /-- The value. -/
  value : String
deriving DecidableEq

/-- Where the loop is. -/
inductive LoopPlace where
  /-- In a pass, with these operations left. -/
  | inPass (rest : List Operation)
  /-- Behind a pass that has been broken off. -/
  | brokenOff
  /-- Behind the loop. -/
  | done
  /-- Stopped by a `panic`. -/
  | panicked (text : String)
deriving DecidableEq

/-- The variables of the loop. -/
structure LoopState where
  /-- Where it is. -/
  place : LoopPlace
  /-- The requests sent. -/
  requests : List Request
  /-- `wrong_value`, below `2 ^ 31`. -/
  wrongValue : ℕ
  /-- `timeStamps`. -/
  timeStamps : List ℕ
  /-- `dump_latency`. -/
  dumpLatency : Bool
  /-- `run_time`. -/
  runTime : ℕ
  /-- `client_thread_ops_executed[client_index]`. -/
  opsExecuted : ℕ
  /-- Ghost: the operations executed. -/
  executions : List Execution
  /-- Ghost: the readings at the end of every pass. -/
  passEnds : List ℕ
  /-- Ghost: the last reading. -/
  clock : ℕ
deriving DecidableEq

/-- The loop before its first pass. -/
def LoopState.initial (config : LoopConfig) : LoopState where
  place := .inPass config.operationSet
  requests := []
  wrongValue := 0
  timeStamps := []
  dumpLatency := false
  runTime := 0
  opsExecuted := 0
  executions := []
  passEnds := []
  clock := 0

/-- What happens next. -/
inductive LoopLabel where
  /-- The next operation is executed, with these readings and this answer. -/
  | execute (ioStart finished now : ℕ) (value : String)
  /-- The condition behind a pass is tested. -/
  | test (now : ℕ)

/-- One operation of a pass. -/
def executeOperation (config : LoopConfig) (st : LoopState) (rest : List Operation)
    (execution : Execution) : LoopState :=
  let runTime := seconds execution.now
  { st with
    place :=
      if config.totalRuntimeInSeconds + warmupTimeInSeconds ≤ runTime then .brokenOff
      else .inPass rest
    requests := st.requests ++ [config.request execution.operation]
    wrongValue := if execution.value = config.value then st.wrongValue else st.wrongValue + 1
    -- the operation that ends the warm-up is not noted
    timeStamps :=
      if st.dumpLatency then st.timeStamps ++ [execution.finished - execution.ioStart]
      else st.timeStamps
    dumpLatency := st.dumpLatency || decide (warmupTimeInSeconds ≤ runTime)
    runTime := runTime
    opsExecuted := st.opsExecuted + 1
    executions := st.executions ++ [execution]
    clock := execution.now }

/-- The condition of the loop, without the warm-up. -/
def testRunTime (config : LoopConfig) (st : LoopState) (now : ℕ) : LoopState :=
  { st with
    place :=
      if seconds now < config.totalRuntimeInSeconds then .inPass config.operationSet else .done
    runTime := seconds now
    passEnds := st.passEnds ++ [now]
    clock := now }

/-- One step: `none` where the label is not enabled. -/
def loopStep (config : LoopConfig) (st : LoopState) : LoopLabel → Option LoopState
  | .execute ioStart finished now value =>
      match st.place with
      | .inPass (operation :: rest) =>
          if (config.numNodes : ℤ) < operation.node.toInt then
            some { st with place := .panicked (invalidNode operation.node) }
          else some (executeOperation config st rest ⟨operation, ioStart, finished, now, value⟩)
      | _ => none
  | .test now =>
      match st.place with
      | .inPass [] | .brokenOff => some (testRunTime config st now)
      | _ => none

/-- The clock does not go back. -/
def SteadyClock (st : LoopState) : LoopLabel → Prop
  | .execute ioStart finished now _ => st.clock ≤ ioStart ∧ ioStart ≤ finished ∧ finished ≤ now
  | .test now => st.clock ≤ now

/-- Whether a reading is later than the last one can be computed. -/
instance (st : LoopState) : (label : LoopLabel) → Decidable (SteadyClock st label)
  | .execute _ _ _ _ => inferInstanceAs (Decidable (_ ≤ _ ∧ _ ≤ _ ∧ _ ≤ _))
  | .test _ => inferInstanceAs (Decidable (_ ≤ _))

/-! ## What the loop measures -/

section Measures

variable (config : LoopConfig)

/-- The warm-up was not over after this operation. -/
def inWarmup (execution : Execution) : Bool := seconds execution.now < warmupTimeInSeconds

/-- The run time with the warm-up was not over after this operation. -/
def InTime (execution : Execution) : Prop :=
  seconds execution.now < config.totalRuntimeInSeconds + warmupTimeInSeconds

/-- The requests of a number of passes. -/
def passes (n : ℕ) : List Request := (List.replicate n (config.pass config.operationSet).1).flatten

/-- **What a run of the loop has measured.** -/
structure Measures (st : LoopState) : Prop where
  /-- The requests are those of the operations executed. -/
  requests : st.requests = st.executions.map fun execution => config.request execution.operation
  /-- Those are passes over the operation set, the last of which may not be complete. -/
  repeats : ∃ n, st.requests <+: passes config n
  /-- The operations are counted. -/
  opsExecuted : st.opsExecuted = st.executions.length
  /-- So are the wrong values. -/
  wrongValue : st.wrongValue = st.executions.countP fun execution => execution.value ≠ config.value
  /-- The latencies are those of the operations after the one that ended the warm-up. -/
  timeStamps : st.timeStamps = ((st.executions.dropWhile inWarmup).drop 1).map
    fun execution => execution.finished - execution.ioStart
  /-- Nothing is executed after the run time with the warm-up. -/
  inTime : ∀ execution ∈ st.executions.dropLast, InTime config execution
  /-- No pass begins after the run time without the warm-up. -/
  passEnds : ∀ now ∈ st.passEnds.dropLast, seconds now < config.totalRuntimeInSeconds
  /-- The loop ends after the run time, with the passes completed or the last one broken off. -/
  done : st.place = .done → config.totalRuntimeInSeconds ≤ st.runTime ∧
    (st.requests = passes config st.passEnds.length ∨
      ∃ execution, st.executions.getLast? = some execution ∧ ¬ InTime config execution)
  /-- A panic comes in the first pass, just where a pass without a clock has it. -/
  panicked : ∀ text, st.place = .panicked text →
    config.pass config.operationSet = (st.requests, .panic text)

/-- In a pass with `rest` left: what has been sent in it and what a pass over `rest` would send are
a pass, and if it is not the first one, passes do not panic. -/
structure InPass (st : LoopState) (rest : List Operation) : Prop where
  /-- The requests of this pass. -/
  requests : ∃ sent, st.requests = passes config st.passEnds.length ++ sent ∧
    config.pass config.operationSet = (sent ++ (config.pass rest).1, (config.pass rest).2)
  /-- There were complete passes. -/
  done : st.passEnds.length ≠ 0 → (config.pass config.operationSet).2 = .done
  /-- Nothing has been broken off. -/
  inTime : ∀ execution ∈ st.executions, InTime config execution
  /-- The run time was not over after any pass. -/
  passEnds : ∀ now ∈ st.passEnds, seconds now < config.totalRuntimeInSeconds

/-- Behind a pass that has been broken off, because the run time with the warm-up is over. -/
structure BrokenOff (st : LoopState) : Prop where
  /-- The last operation was not in time. -/
  last : ∃ execution, st.executions.getLast? = some execution ∧ ¬ InTime config execution ∧
    execution.now ≤ st.clock
  /-- The run time was not over after any pass. -/
  passEnds : ∀ now ∈ st.passEnds, seconds now < config.totalRuntimeInSeconds

/-- What holds of the loop in every state of every run. -/
structure LoopInvariant (st : LoopState) : Prop extends Measures config st where
  /-- In a pass. -/
  inPass : ∀ rest, st.place = .inPass rest → InPass config st rest
  /-- Behind a broken one. -/
  brokenOff : st.place = .brokenOff → BrokenOff config st
  /-- Latencies are noted once the warm-up is over. -/
  dumpLatency : st.dumpLatency = !(st.executions.dropWhile inWarmup).isEmpty

end Measures

section Steps

variable {config : LoopConfig}

/-- One more pass. -/
theorem passes_succ (config : LoopConfig) (n : ℕ) :
    passes config (n + 1) = passes config n ++ (config.pass config.operationSet).1 := by
  rw [passes, passes, List.replicate_succ', List.flatten_append, List.flatten_singleton]

/-- The loop has not begun. -/
theorem loopInvariant_initial (config : LoopConfig) :
    LoopInvariant config (.initial config) where
  requests := rfl
  repeats := ⟨0, List.prefix_refl _⟩
  opsExecuted := rfl
  wrongValue := rfl
  timeStamps := rfl
  inTime := fun _ hmem => absurd hmem List.not_mem_nil
  passEnds := fun _ hmem => absurd hmem List.not_mem_nil
  done := fun hplace => by cases hplace
  panicked := fun _ hplace => by cases hplace
  inPass := by
    intro rest hplace
    cases hplace
    exact ⟨⟨[], rfl, rfl⟩, fun h => absurd rfl h, fun _ hmem => absurd hmem List.not_mem_nil,
      fun _ hmem => absurd hmem List.not_mem_nil⟩
  brokenOff := fun hplace => by cases hplace
  dumpLatency := rfl

/-- The first operation of a pass that does not stop at it. -/
theorem pass_cons {operation : Operation} (rest : List Operation)
    (h : ¬ (config.numNodes : ℤ) < operation.node.toInt) :
    config.pass (operation :: rest)
      = (config.request operation :: (config.pass rest).1, (config.pass rest).2) := by
  rw [LoopConfig.pass, executeOperations, if_neg h]
  rfl

/-- One more operation after the warm-up, or in it. -/
theorem drop_dropWhile_concat (executions : List Execution) (execution : Execution) :
    ((executions ++ [execution]).dropWhile inWarmup).drop 1
      = (executions.dropWhile inWarmup).drop 1
        ++ if (executions.dropWhile inWarmup).isEmpty then [] else [execution] := by
  rw [List.dropWhile_append]
  cases hdrop : executions.dropWhile inWarmup with
  | nil =>
    rw [List.isEmpty_nil, if_pos rfl, if_pos rfl, List.dropWhile_cons]
    split <;> rfl
  | cons first rest => rfl

/-- The warm-up is over after an operation, or was before. -/
theorem isEmpty_dropWhile_concat (executions : List Execution) (execution : Execution) :
    ((executions ++ [execution]).dropWhile inWarmup).isEmpty
      = ((executions.dropWhile inWarmup).isEmpty && inWarmup execution) := by
  rw [List.dropWhile_append]
  cases hdrop : executions.dropWhile inWarmup with
  | nil =>
    rw [List.isEmpty_nil, if_pos rfl, List.dropWhile_cons, Bool.true_and]
    cases inWarmup execution <;> rfl
  | cons first rest => rfl

/-- An operation of a pass keeps the invariant. -/
theorem LoopInvariant.executeOperation {st : LoopState} (h : LoopInvariant config st)
    {operation : Operation} {rest : List Operation}
    (hplace : st.place = .inPass (operation :: rest))
    (hnode : ¬ (config.numNodes : ℤ) < operation.node.toInt) {execution : Execution}
    (hoperation : execution.operation = operation) :
    LoopInvariant config (executeOperation config st rest execution) := by
  have hpass := h.inPass _ hplace
  obtain ⟨sent, hsent, hwhole⟩ := hpass.requests
  rw [pass_cons rest hnode] at hwhole
  -- the requests of this pass with the new one
  have hmore : st.requests ++ [config.request operation]
      = passes config st.passEnds.length ++ (sent ++ [config.request operation]) := by
    rw [hsent, List.append_assoc]
  have hbegun : config.pass config.operationSet
      = (sent ++ [config.request operation] ++ (config.pass rest).1, (config.pass rest).2) := by
    rw [hwhole, List.append_assoc]
    rfl
  refine { requests := ?_, repeats := ?_, opsExecuted := ?_, wrongValue := ?_, timeStamps := ?_,
           inTime := ?_, passEnds := ?_, done := ?_, panicked := ?_, inPass := ?_,
           brokenOff := ?_, dumpLatency := ?_ }
  · simp [Traces.executeOperation, h.requests]
  · refine ⟨st.passEnds.length + 1, (config.pass rest).1, ?_⟩
    show st.requests ++ [config.request execution.operation] ++ _ = _
    rw [hoperation, hmore, passes_succ, hbegun, List.append_assoc]
  · simp [Traces.executeOperation, h.opsExecuted]
  · simp only [Traces.executeOperation, h.wrongValue, List.countP_append, List.countP_singleton]
    by_cases hvalue : execution.value = config.value <;> simp [hvalue]
  · simp only [Traces.executeOperation, h.dumpLatency, drop_dropWhile_concat, List.map_append,
      h.timeStamps]
    cases (st.executions.dropWhile inWarmup).isEmpty <;> simp
  · simp only [Traces.executeOperation, List.dropLast_concat]
    exact hpass.inTime
  · exact fun now hnow => hpass.passEnds now (List.dropLast_subset _ hnow)
  · intro hdone
    simp only [Traces.executeOperation] at hdone
    split at hdone <;> cases hdone
  · intro text hpanicked
    simp only [Traces.executeOperation] at hpanicked
    split at hpanicked <;> cases hpanicked
  · intro rest' hrest
    simp only [Traces.executeOperation] at hrest
    split at hrest
    · cases hrest
    · next hlate =>
      cases hrest
      refine ⟨⟨sent ++ [config.request operation], ?_, hbegun⟩, hpass.done, ?_, hpass.passEnds⟩
      · show st.requests ++ [config.request execution.operation] = _
        rw [hoperation]
        exact hmore
      · exact List.forall_mem_append.mpr
          ⟨hpass.inTime, List.forall_mem_singleton.mpr (Nat.lt_of_not_le hlate)⟩
  · intro hbroken
    simp only [Traces.executeOperation] at hbroken
    split at hbroken
    · next hlate =>
      exact ⟨⟨execution, List.getLast?_concat, Nat.not_lt_of_le hlate, Nat.le_refl _⟩,
        hpass.passEnds⟩
    · cases hbroken
  · have hover : decide (warmupTimeInSeconds ≤ seconds execution.now) = !inWarmup execution := by
      rw [inWarmup, ← decide_not]
      exact decide_eq_decide.mpr Nat.not_lt.symm
    simp only [Traces.executeOperation, h.dumpLatency, isEmpty_dropWhile_concat, hover,
      Bool.not_and]

/-- The test behind a complete pass keeps the invariant. -/
theorem LoopInvariant.testComplete {st : LoopState} (h : LoopInvariant config st)
    (hplace : st.place = .inPass []) (now : ℕ) :
    LoopInvariant config (testRunTime config st now) := by
  have hpass := h.inPass _ hplace
  obtain ⟨sent, hsent, hwhole⟩ := hpass.requests
  have hdone : config.pass config.operationSet = (sent, .done) := by
    rw [hwhole]
    exact Prod.ext (List.append_nil _) rfl
  have hrequests : st.requests = passes config (st.passEnds ++ [now]).length := by
    rw [List.length_append, List.length_singleton, passes_succ, hdone, hsent]
  refine { h with
    passEnds := ?_, done := ?_, panicked := ?_, inPass := ?_, brokenOff := ?_ }
  · simp only [testRunTime, List.dropLast_concat]
    exact hpass.passEnds
  · intro hend
    simp only [testRunTime] at hend
    split at hend
    · cases hend
    · next hover => exact ⟨Nat.le_of_not_lt hover, Or.inl hrequests⟩
  · intro text hpanicked
    simp only [testRunTime] at hpanicked
    split at hpanicked <;> cases hpanicked
  · intro rest hrest
    simp only [testRunTime] at hrest
    split at hrest
    · next hgoOn =>
      cases hrest
      refine ⟨⟨[], ?_, rfl⟩, fun _ => by rw [hdone], hpass.inTime, ?_⟩
      · rw [List.append_nil]
        exact hrequests
      · exact List.forall_mem_append.mpr ⟨hpass.passEnds, List.forall_mem_singleton.mpr hgoOn⟩
    · cases hrest
  · intro hbroken
    simp only [testRunTime] at hbroken
    split at hbroken <;> cases hbroken

/-- The test behind a pass that has been broken off ends the loop, as the clock does not go back. -/
theorem LoopInvariant.testBroken {st : LoopState} (h : LoopInvariant config st)
    (hplace : st.place = .brokenOff) {now : ℕ} (hclock : st.clock ≤ now) :
    LoopInvariant config (testRunTime config st now) := by
  have hbroken := h.brokenOff hplace
  obtain ⟨execution, hlast, hlate, hnow⟩ := hbroken.last
  have hover : config.totalRuntimeInSeconds ≤ seconds now := by
    have hseconds : seconds execution.now ≤ seconds now :=
      Nat.div_le_div_right (hnow.trans hclock)
    unfold InTime at hlate
    omega
  have hdone : (testRunTime config st now).place = .done := if_neg (Nat.not_lt_of_le hover)
  refine { h with
    passEnds := ?_, done := ?_, panicked := ?_, inPass := ?_, brokenOff := ?_ }
  · simp only [testRunTime, List.dropLast_concat]
    exact hbroken.passEnds
  · exact fun _ => ⟨hover, Or.inr ⟨execution, hlast, hlate⟩⟩
  · exact fun text hpanicked => by rw [hdone] at hpanicked; cases hpanicked
  · exact fun rest hrest => by rw [hdone] at hrest; cases hrest
  · exact fun hplace' => by rw [hdone] at hplace'; cases hplace'

/-- A panic keeps the invariant. -/
theorem LoopInvariant.panic {st : LoopState} (h : LoopInvariant config st) {operation : Operation}
    {rest : List Operation} (hplace : st.place = .inPass (operation :: rest))
    (hnode : (config.numNodes : ℤ) < operation.node.toInt) :
    LoopInvariant config { st with place := .panicked (invalidNode operation.node) } := by
  have hpass := h.inPass _ hplace
  obtain ⟨sent, hsent, hwhole⟩ := hpass.requests
  have hstop : config.pass (operation :: rest) = ([], .panic (invalidNode operation.node)) := by
    rw [LoopConfig.pass, executeOperations, if_pos hnode]
  rw [hstop, List.append_nil] at hwhole
  -- a complete pass would have panicked
  have hfirst : st.passEnds.length = 0 := by
    by_contra hlater
    have hdone := hpass.done hlater
    rw [hwhole] at hdone
    cases hdone
  refine { h with
    done := ?_, panicked := ?_, inPass := ?_, brokenOff := ?_ }
  · exact fun hdone => by cases hdone
  · intro text htext
    cases htext
    rw [hwhole, hsent, hfirst]
    rfl
  · exact fun _ hrest => by cases hrest
  · exact fun hbroken => by cases hbroken

/-- Every step keeps the invariant. -/
theorem LoopInvariant.step {st st' : LoopState} (h : LoopInvariant config st) {label : LoopLabel}
    (hclock : SteadyClock st label) (hs : loopStep config st label = some st') :
    LoopInvariant config st' := by
  cases label with
  | execute ioStart finished now value =>
    rw [loopStep] at hs
    split at hs
    · next operation rest hplace =>
      split at hs
      · next hnode =>
        cases hs
        exact h.panic hplace hnode
      · next hnode =>
        cases hs
        exact h.executeOperation hplace hnode rfl
    · cases hs
  | test now =>
    rw [loopStep] at hs
    split at hs
    · next hplace =>
      cases hs
      exact h.testComplete hplace now
    · next hplace =>
      cases hs
      exact h.testBroken hplace hclock
    · cases hs

/-- The invariant holds in every state of every run. -/
theorem loopInvariant_of_reachable (config : LoopConfig) {st : LoopState}
    (h : ReachableUnder (loopStep config) SteadyClock (.initial config) st) :
    LoopInvariant config st := by
  refine h.invariant (I := LoopInvariant config) (loopInvariant_initial config) ?_
  intro _ _ _ _ hinv hclock hs
  exact hinv.step hclock hs

/-- **What the measuring loop measures.** In every run, whatever the answers and the readings of a
clock that does not go back, the loop sends passes over its operations, ends after the run time, and
what it has counted and noted is that of the operations it has executed. -/
theorem measuringLoop_measures (config : LoopConfig) {st : LoopState}
    (h : ReachableUnder (loopStep config) SteadyClock (.initial config) st) : Measures config st :=
  (loopInvariant_of_reachable config h).toMeasures

/-- Two operations for a run of one second. -/
def shortLoop : LoopConfig where
  operationSet := [⟨"1", 1, 'R'⟩, ⟨"2", 1, 'R'⟩]
  clientStartIndex := 2
  threadIndex := 0
  numNodes := 1
  valueSize := 1
  totalRuntimeInSeconds := 1

/-- The warm-up ends with the first operation, and the second one has a wrong value. -/
def onePass : List LoopLabel :=
  [.execute 0 5 60000000000 "A", .execute 60000000000 60000000007 60000000009 "B",
    .test 60000000010]

/-- One latency is noted and one value is wrong. -/
theorem measuringLoop_measures_two : ∃ st, runLabels (loopStep shortLoop) (.initial shortLoop)
      onePass = some st ∧ st.timeStamps = [7] ∧ st.wrongValue = 1 ∧ st.place = .done ∧
    Measures shortLoop st :=
  ⟨_, rfl, rfl, rfl, rfl, measuringLoop_measures shortLoop
    (reachableUnder_of_runLabels onePass (by decide) rfl)⟩

end Steps

end TwigKV.Traces
