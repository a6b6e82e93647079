import TwigKV.Foundations.TableSums
import TwigKV.Traces.MeasuringLoop
import TwigKV.Workload.Generators
import TwigKV.Workload.Splitting

/-! # The clients of a machine (`ldc.cpp`)

A client machine starts `FLAGS_threads * FLAGS_clients_per_threads` clients. Unless the distribution
type is `YCSB`, where each client loads a file of its own, each client takes its chunk of the
machine's operations with `get_chunk`. It runs the measuring loop of `execute_operations` on them,
side by side with the others and each with its own clock. An operation sends its request, waits for
the answer, counts in `total_ops_executed` and then in the client's own counter.

Every client is in a state of its own loop (`ClientsOk.reachable`), so what holds of one loop holds
of all. The shared counter lags behind the requests by the clients that wait for an answer, and is
ahead of the clients' own counters by the clients between the two. Together the clients go through
the machine's operations: if each of them has completed `k` passes, every operation has been sent
`k` times (`clients_cover_operations`). -/

namespace TwigKV.Workload

open TwigKV.Traces

/-! ## The machine -/

/-- What `client_worker` is started with on a machine. -/
structure ClientMachine where
  /-- `DISTRIBUTION_TYPE`. -/
  distributionType : DistributionType
  /-- `ops`. -/
  ops : List Operation
  /-- What stands in the file of a client for `YCSB`, nothing where it cannot be opened. -/
  ycsbFile : ℕ → List Char
  /-- `FLAGS_threads`. -/
  threads : ℕ
  /-- `FLAGS_clients_per_threads`. -/
  clientsPerThread : ℕ
  /-- `start_client_index - 1`. -/
  clientStartIndex : ℤ
  /-- `NUM_NODES`. -/
  numNodes : ℕ
  /-- `VALUE_SIZE`. -/
  valueSize : ℕ
  /-- `TOTAL_RUNTIME_IN_SECONDS`. -/
  totalRuntimeInSeconds : ℕ

/-- How far a client is with an operation. -/
inductive OperationPhase where
  /-- It has not begun one. -/
  | outside
  /-- It has sent the request and waits in `get`. -/
  | sent
  /-- It has the answer, and `total_ops_executed` has counted the operation. -/
  | counted
deriving DecidableEq

/-- The clients' loops and what they share. -/
structure MachineState where
  /-- The loops, by `client_index`. -/
  loops : ℕ → LoopState
  /-- How far every client is with an operation. -/
  phases : ℕ → OperationPhase
  /-- `total_ops_executed`. -/
  totalOpsExecuted : ℕ
  /-- Ghost: the requests in the order in which they were sent, each with its client. -/
  sent : List (ℕ × Request)

/-- A client takes a step. -/
inductive MachineLabel where
  /-- It sends the request of its next operation. -/
  | send (client : ℕ)
  /-- The answer is there, and `total_ops_executed` counts. -/
  | count (client : ℕ)
  /-- What is left of the operation, or another step of the loop. -/
  | loop (client : ℕ) (label : LoopLabel)

/-- The request of the operation that comes next in a loop. -/
def nextRequest (config : LoopConfig) (loop : LoopState) : Option Request :=
  match loop.place with
  | .inPass (operation :: _) =>
      if (config.numNodes : ℤ) < operation.node.toInt then none else some (config.request operation)
  | _ => none

namespace ClientMachine

/-- `FLAGS_threads * FLAGS_clients_per_threads`. -/
def numClients (machine : ClientMachine) : ℕ := machine.threads * machine.clientsPerThread

/-- `ops_chunk` of a client. No client has a number that `get_chunk` does not take. -/
def opsChunk (machine : ClientMachine) (client : ℕ) : List Operation :=
  if machine.distributionType ≠ .ycsb then
    (getChunk machine.ops machine.numClients client).getD []
  else loadOperationSetFromFile (machine.ycsbFile client)

/-- The loop of a client: client `j` of thread `i` has the `client_index`
`i * clientsPerThread + j`. -/
def loopConfig (machine : ClientMachine) (client : ℕ) : LoopConfig where
  operationSet := machine.opsChunk client
  clientStartIndex := machine.clientStartIndex
  threadIndex := client / machine.clientsPerThread
  numNodes := machine.numNodes
  valueSize := machine.valueSize
  totalRuntimeInSeconds := machine.totalRuntimeInSeconds

/-- The clients before their first operation. -/
def initial (machine : ClientMachine) : MachineState where
  loops := fun client => .initial (machine.loopConfig client)
  phases := fun _ => .outside
  totalOpsExecuted := 0
  sent := []

/-- The request of a client's next operation. -/
def requestOf (machine : ClientMachine) (st : MachineState) (client : ℕ) : Option Request :=
  nextRequest (machine.loopConfig client) (st.loops client)

/-- The loop goes on after the operation is counted, and at once where there is none. -/
def phaseToGoOn (machine : ClientMachine) (st : MachineState) (client : ℕ) : OperationPhase :=
  if (machine.requestOf st client).isSome then .counted else .outside

/-- One step: `none` where the label is not enabled. -/
def step (machine : ClientMachine) (st : MachineState) : MachineLabel → Option MachineState
  | .send client =>
      if client < machine.numClients ∧ st.phases client = .outside then
        (machine.requestOf st client).map fun request =>
          { st with
            phases := Function.update st.phases client .sent
            sent := st.sent ++ [(client, request)] }
      else none
  | .count client =>
      if client < machine.numClients ∧ st.phases client = .sent then
        some { st with
          phases := Function.update st.phases client .counted
          totalOpsExecuted := st.totalOpsExecuted + 1 }
      else none
  | .loop client label =>
      if client < machine.numClients ∧ st.phases client = machine.phaseToGoOn st client then
        (loopStep (machine.loopConfig client) (st.loops client) label).map fun loop =>
          { st with
            loops := Function.update st.loops client loop
            phases := Function.update st.phases client .outside }
      else none

/-- No client's clock goes back. -/
def SteadyClocks (st : MachineState) : MachineLabel → Prop
  | .send _ | .count _ => True
  | .loop client label => SteadyClock (st.loops client) label

/-- Whether a reading is later than the last one can be computed. -/
instance (st : MachineState) : (l : MachineLabel) → Decidable (SteadyClocks st l)
  | .send _ | .count _ => isTrue trivial
  | .loop _ _ => inferInstanceAs (Decidable (SteadyClock _ _))

/-- The states of the clients, in any order of their steps. -/
def Reaches (machine : ClientMachine) (st : MachineState) : Prop :=
  ReachableUnder machine.step SteadyClocks machine.initial st

/-- How many clients are in a phase. -/
def clientsIn (machine : ClientMachine) (st : MachineState) (phase : OperationPhase) : ℕ :=
  tableWeight (fun other => if other = phase then 1 else 0) machine.numClients st.phases

/-- The sum of `client_thread_ops_executed`. -/
def opsExecutedByClients (machine : ClientMachine) (st : MachineState) : ℕ :=
  tableWeight LoopState.opsExecuted machine.numClients st.loops

/-- The client is done after `k` passes, the last of which has not been broken off. -/
structure Completed (machine : ClientMachine) (st : MachineState) (k client : ℕ) : Prop where
  /-- Its loop has ended. -/
  done : (st.loops client).place = .done
  /-- It has passed over its operations `k` times. -/
  passEnds : (st.loops client).passEnds.length = k
  /-- It was in time after every operation. -/
  inTime : ∀ execution ∈ (st.loops client).executions,
    InTime (machine.loopConfig client) execution

/-- Where a client's loop stands, its completed passes and the readings of the clock in its
operations. -/
def outcome (st : MachineState) (client : ℕ) : LoopPlace × ℕ × List ℕ :=
  ((st.loops client).place, (st.loops client).passEnds.length,
    (st.loops client).executions.map Execution.now)

/-- The machine that an operation contacts and the key it asks for. -/
def target (machine : ClientMachine) (operation : Operation) : ℤ × String :=
  (operation.node.toInt + machine.clientStartIndex, operation.key)

end ClientMachine

/-- The machine that a request contacts and its key. -/
def requestTarget : Request → ℤ × String
  | .get index _ key => (index, key)
  | .put index _ key _ => (index, key)

/-! ## Chunks and passes -/

namespace ClientMachine

variable {machine : ClientMachine} {st st' : MachineState}

/-- The chunks of the clients are the even pieces of the operations. -/
theorem opsChunk_eq (hycsb : machine.distributionType ≠ .ycsb) {client : ℕ}
    (h : client < machine.numClients) :
    machine.opsChunk client
      = piece (evenBoundary machine.ops.length machine.numClients) machine.ops client := by
  rw [opsChunk, if_pos hycsb, getChunk_eq _ h, Option.getD_some]

/-- Put together they are the operations. -/
theorem flatMap_opsChunk (hycsb : machine.distributionType ≠ .ycsb)
    (hclients : 1 ≤ machine.numClients) :
    (List.range machine.numClients).flatMap machine.opsChunk = machine.ops := by
  rw [List.flatMap_congr fun client h => opsChunk_eq hycsb (List.mem_range.mp h), List.flatMap_def]
  exact flatten_evenPieces machine.ops hclients

/-- A client's operations are operations of the machine. -/
theorem mem_of_mem_opsChunk (hycsb : machine.distributionType ≠ .ycsb) {client : ℕ}
    (h : client < machine.numClients) {operation : Operation}
    (hmem : operation ∈ machine.opsChunk client) : operation ∈ machine.ops := by
  rw [opsChunk_eq hycsb h, piece] at hmem
  exact List.mem_of_mem_take (List.mem_of_mem_drop hmem)

/-- A pass over operations for nodes up to `NUM_NODES` sends a request for each of them. -/
theorem pass_of_valid (config : LoopConfig) {operations : List Operation}
    (h : ∀ operation ∈ operations, operation.node.toInt ≤ (config.numNodes : ℤ)) :
    (config.pass operations).1 = operations.map config.request := by
  induction operations with
  | nil => rfl
  | cons operation operations ih =>
      have hfirst := h operation List.mem_cons_self
      rw [pass_cons operations (Int.not_lt.mpr hfirst), List.map_cons]
      exact congrArg _ (ih fun operation' hmem => h operation' (List.mem_cons_of_mem _ hmem))

/-- What passes of a client contact and ask for. -/
theorem targets_passes (hycsb : machine.distributionType ≠ .ycsb) {client : ℕ}
    (hclient : client < machine.numClients)
    (hvalid : ∀ operation ∈ machine.ops, operation.node.toInt ≤ (machine.numNodes : ℤ)) (n : ℕ) :
    (passes (machine.loopConfig client) n).map requestTarget
      = (List.replicate n ((machine.opsChunk client).map machine.target)).flatten := by
  have hpass : ((machine.loopConfig client).pass (machine.loopConfig client).operationSet).1
      = (machine.opsChunk client).map (machine.loopConfig client).request :=
    pass_of_valid _ fun operation hmem => hvalid operation (mem_of_mem_opsChunk hycsb hclient hmem)
  rw [passes, hpass, List.map_flatten, List.map_replicate, List.map_map]
  rfl

/-- A client is done in time where the readings of its clock say so. -/
theorem Completed.of_outcome {k client : ℕ} {readings : List ℕ}
    (h : outcome st client = (.done, k, readings))
    (htime : ∀ now ∈ readings,
      seconds now < machine.totalRuntimeInSeconds + warmupTimeInSeconds) :
    machine.Completed st k client := by
  obtain ⟨hdone, hpasses, hreadings⟩ := by
    simpa only [outcome, Prod.mk.injEq] using h
  refine ⟨hdone, hpasses, fun execution hmem => htime _ ?_⟩
  rw [← hreadings]
  exact List.mem_map_of_mem hmem

/-- What a client that has completed `k` passes has sent. -/
theorem Completed.requests {k client : ℕ} (h : machine.Completed st k client)
    (hmeasures : Measures (machine.loopConfig client) (st.loops client)) :
    (st.loops client).requests = passes (machine.loopConfig client) k := by
  rcases (hmeasures.done h.done).2 with hpasses | ⟨execution, hlast, hlate⟩
  · rw [hpasses, h.passEnds]
  · exact absurd (h.inTime execution (List.mem_of_getLast? hlast)) hlate

/-! ## What holds in every state -/

/-- The request of an operation in a pass, if its node is a server. -/
theorem nextRequest_inPass {config : LoopConfig} {loop : LoopState} {operation : Operation}
    {rest : List Operation} (hplace : loop.place = .inPass (operation :: rest)) :
    nextRequest config loop = if (config.numNodes : ℤ) < operation.node.toInt then none
      else some (config.request operation) := by
  rw [nextRequest, hplace]

/-- A step of the loop adds the request of its operation, if it executes one, and counts it. -/
theorem loopStep_adds {config : LoopConfig} {loop loop' : LoopState} {label : LoopLabel}
    (h : loopStep config loop label = some loop') :
    loop'.requests = loop.requests ++ (nextRequest config loop).toList ∧
      loop'.opsExecuted = loop.opsExecuted + (nextRequest config loop).toList.length := by
  cases label with
  | execute ioStart finished now value =>
    rw [loopStep] at h
    split at h
    · next operation rest hplace =>
      rw [nextRequest_inPass hplace]
      split at h
      · next hnode =>
        cases h
        rw [if_pos hnode]
        exact ⟨(List.append_nil _).symm, rfl⟩
      · next hnode =>
        cases h
        rw [if_neg hnode]
        exact ⟨rfl, rfl⟩
    · cases h
  | test now =>
    -- behind a pass no operation is left
    have hnone : nextRequest config loop = none := by
      rw [loopStep] at h
      rw [nextRequest]
      cases hplace : loop.place with
      | inPass rest =>
        cases rest with
        | nil => rfl
        | cons operation rest =>
          rw [hplace] at h
          cases h
      | brokenOff => rfl
      | done => rfl
      | panicked text => rfl
    rw [hnone]
    rw [loopStep] at h
    split at h
    · cases h
      exact ⟨(List.append_nil _).symm, rfl⟩
    · cases h
      exact ⟨(List.append_nil _).symm, rfl⟩
    · cases h

/-- What a client has sent: the requests of its loop, and the one it is busy with. -/
def requestsOf (machine : ClientMachine) (st : MachineState) (client : ℕ) : List Request :=
  (st.loops client).requests
    ++ if st.phases client = .outside then [] else (machine.requestOf st client).toList

/-- **The invariant of the clients.** -/
structure ClientsOk (machine : ClientMachine) (st : MachineState) : Prop where
  /-- Every client is in a state of its own loop. -/
  reachable : ∀ client, ReachableUnder (loopStep (machine.loopConfig client)) SteadyClock
    (.initial (machine.loopConfig client)) (st.loops client)
  /-- A client is busy with the operation that comes next in its loop. -/
  busy : ∀ client, st.phases client ≠ .outside → (machine.requestOf st client).isSome
  /-- What a client has sent, in its order. -/
  sentBy : ∀ client, (st.sent.filter fun entry => entry.1 = client).map Prod.snd
    = machine.requestsOf st client
  /-- What all of them have sent. -/
  sent : (st.sent.map Prod.snd).Perm
    ((List.range machine.numClients).flatMap (machine.requestsOf st))
  /-- The shared counter lags behind by the clients that wait for an answer. -/
  counted : st.totalOpsExecuted + machine.clientsIn st .sent = st.sent.length
  /-- It is ahead of the clients' own counters by the clients that it has counted and they have
  not. -/
  ownCounters : st.totalOpsExecuted
    = machine.opsExecutedByClients st + machine.clientsIn st .counted

/-- No client has begun an operation. -/
theorem clientsIn_initial (machine : ClientMachine) {phase : OperationPhase}
    (hphase : phase ≠ .outside) : machine.clientsIn machine.initial phase = 0 := by
  rw [clientsIn, tableWeight]
  exact Finset.sum_eq_zero fun _ _ => if_neg (Ne.symm hphase)

/-- Nothing has been sent. -/
theorem clientsOk_initial (machine : ClientMachine) : machine.ClientsOk machine.initial where
  reachable := fun _ => .refl
  busy := fun _ hbusy => absurd rfl hbusy
  sentBy := fun _ => rfl
  sent := by
    have hnothing : (List.range machine.numClients).flatMap
        (machine.requestsOf machine.initial) = [] :=
      List.flatMap_eq_nil_iff.mpr fun _ _ => rfl
    rw [hnothing]
    exact List.Perm.refl _
  counted := by
    rw [clientsIn_initial machine OperationPhase.noConfusion]
    rfl
  ownCounters := by
    have hzero : machine.opsExecutedByClients machine.initial = 0 := by
      rw [opsExecutedByClients, tableWeight]
      exact Finset.sum_eq_zero fun _ _ => rfl
    rw [clientsIn_initial machine OperationPhase.noConfusion, hzero]
    rfl

/-- A client in another phase. -/
theorem clientsIn_update (st : MachineState) {client : ℕ} (hclient : client < machine.numClients)
    (phase next : OperationPhase) (loops : ℕ → LoopState) (total : ℕ) (sent : List (ℕ × Request)) :
    machine.clientsIn ⟨loops, Function.update st.phases client next, total, sent⟩ phase
        + (if st.phases client = phase then 1 else 0)
      = machine.clientsIn st phase + if next = phase then 1 else 0 :=
  tableWeight_update (fun other => if other = phase then 1 else 0) st.phases hclient next

/-- Where one client has moved, only its share of the requests may have changed. -/
theorem requestsOf_update {st' : MachineState} (client : ℕ)
    (hothers : ∀ other, other ≠ client → st'.loops other = st.loops other ∧
      st'.phases other = st.phases other) :
    machine.requestsOf st'
      = Function.update (machine.requestsOf st) client (machine.requestsOf st' client) := by
  funext other
  by_cases heq : other = client
  · subst heq
    rw [Function.update_self]
  · obtain ⟨hloop, hphase⟩ := hothers other heq
    rw [Function.update_of_ne heq, requestsOf, requestsOf, requestOf, requestOf, hloop, hphase]

/-- The shares stay as they are where a request moves from a client's hands to its loop. -/
theorem requestsOf_congr {st' : MachineState} (client : ℕ)
    (hothers : ∀ other, other ≠ client → st'.loops other = st.loops other ∧
      st'.phases other = st.phases other)
    (hsame : machine.requestsOf st' client = machine.requestsOf st client) :
    machine.requestsOf st' = machine.requestsOf st := by
  rw [requestsOf_update client hothers, hsame, Function.update_eq_self]

/-- Where a client that has an operation next changes its phase, the busy clients have one. -/
theorem ClientsOk.busy_update (h : machine.ClientsOk st) {client other : ℕ} {phase : OperationPhase}
    (hnext : (machine.requestOf st client).isSome)
    (hbusy : Function.update st.phases client phase other ≠ .outside) :
    (machine.requestOf st other).isSome := by
  by_cases heq : other = client
  · rw [heq]
    exact hnext
  · rw [Function.update_of_ne heq] at hbusy
    exact h.busy other hbusy

/-- A client sends a request. -/
theorem ClientsOk.send (h : machine.ClientsOk st) {client : ℕ} {request : Request}
    (hclient : client < machine.numClients) (hphase : st.phases client = .outside)
    (hrequest : machine.requestOf st client = some request) :
    machine.ClientsOk { st with
      phases := Function.update st.phases client .sent
      sent := st.sent ++ [(client, request)] } := by
  -- the request is added to the client's share
  have hshares : machine.requestsOf { st with
      phases := Function.update st.phases client .sent
      sent := st.sent ++ [(client, request)] }
      = Function.update (machine.requestsOf st) client
        (machine.requestsOf st client ++ [request]) := by
    refine Eq.trans (@requestsOf_update machine st _ client fun other heq =>
      ⟨rfl, Function.update_of_ne heq _ _⟩) (congrArg _ ?_)
    rw [requestsOf, requestsOf, hphase, if_pos rfl, List.append_nil]
    show (st.loops client).requests ++ (if Function.update st.phases client .sent client = .outside
      then [] else (machine.requestOf st client).toList) = _
    rw [Function.update_self, if_neg OperationPhase.noConfusion, hrequest]
    rfl
  refine ⟨h.reachable, fun other hbusy => h.busy_update (Option.isSome_of_mem hrequest) hbusy,
    fun other => ?_, ?_, ?_, ?_⟩
  · rw [hshares, List.filter_append, List.map_append, h.sentBy other]
    by_cases heq : other = client
    · subst heq
      rw [Function.update_self]
      simp
    · rw [Function.update_of_ne heq]
      simp [Ne.symm heq]
  · rw [hshares]
    simp only [List.map_append, List.map_cons, List.map_nil]
    exact (h.sent.append_right [request]).trans (flatMap_update_perm _ hclient [request]).symm
  · have hmoved := clientsIn_update st hclient .sent .sent st.loops st.totalOpsExecuted
      (st.sent ++ [(client, request)])
    have hcounted := h.counted
    rw [hphase, if_neg OperationPhase.noConfusion, if_pos rfl] at hmoved
    simp only [List.length_append, List.length_singleton]
    omega
  · have hmoved := clientsIn_update st hclient .counted .sent st.loops st.totalOpsExecuted
      (st.sent ++ [(client, request)])
    have hown := h.ownCounters
    rw [hphase, if_neg OperationPhase.noConfusion, if_neg OperationPhase.noConfusion] at hmoved
    show st.totalOpsExecuted = machine.opsExecutedByClients st + _
    omega

/-- A client's answer has come, and the machine counts the operation. -/
theorem ClientsOk.count (h : machine.ClientsOk st) {client : ℕ}
    (hclient : client < machine.numClients)
    (hphase : st.phases client = .sent) :
    machine.ClientsOk { st with
      phases := Function.update st.phases client .counted
      totalOpsExecuted := st.totalOpsExecuted + 1 } := by
  have hbusy : st.phases client ≠ .outside := by
    rw [hphase]
    exact OperationPhase.noConfusion
  have hshares : machine.requestsOf { st with
      phases := Function.update st.phases client .counted
      totalOpsExecuted := st.totalOpsExecuted + 1 } = machine.requestsOf st := by
    refine requestsOf_congr client (fun other heq =>
      ⟨rfl, Function.update_of_ne heq _ _⟩) ?_
    rw [requestsOf, requestsOf, if_neg hbusy]
    show (st.loops client).requests ++
      (if Function.update st.phases client .counted client = .outside
      then [] else (machine.requestOf st client).toList) = _
    rw [Function.update_self, if_neg OperationPhase.noConfusion]
  refine ⟨h.reachable, fun other hother => h.busy_update (h.busy client hbusy) hother,
    fun other => ?_, ?_, ?_, ?_⟩
  · rw [hshares]
    exact h.sentBy other
  · rw [hshares]
    exact h.sent
  · have hmoved := clientsIn_update st hclient .sent .counted st.loops (st.totalOpsExecuted + 1)
      st.sent
    have hcounted := h.counted
    rw [hphase, if_pos rfl, if_neg OperationPhase.noConfusion] at hmoved
    simp only
    omega
  · have hmoved := clientsIn_update st hclient .counted .counted st.loops (st.totalOpsExecuted + 1)
      st.sent
    have hown := h.ownCounters
    rw [hphase, if_neg OperationPhase.noConfusion, if_pos rfl] at hmoved
    show st.totalOpsExecuted + 1 = machine.opsExecutedByClients st + _
    omega

/-- A client's loop goes on. -/
theorem ClientsOk.loop (h : machine.ClientsOk st) {client : ℕ}
    (hclient : client < machine.numClients)
    (hphase : st.phases client = machine.phaseToGoOn st client) {label : LoopLabel}
    (hclock : SteadyClock (st.loops client) label) {loop : LoopState}
    (hs : loopStep (machine.loopConfig client) (st.loops client) label = some loop) :
    machine.ClientsOk { st with
      loops := Function.update st.loops client loop
      phases := Function.update st.phases client .outside } := by
  obtain ⟨hrequests, hops⟩ := loopStep_adds hs
  have hshares : machine.requestsOf { st with
      loops := Function.update st.loops client loop
      phases := Function.update st.phases client .outside } = machine.requestsOf st := by
    refine requestsOf_congr client (fun other heq =>
      ⟨Function.update_of_ne heq _ _, Function.update_of_ne heq _ _⟩) ?_
    show (Function.update st.loops client loop client).requests
      ++ (if Function.update st.phases client .outside client = .outside then [] else _) = _
    rw [Function.update_self, Function.update_self, if_pos rfl, List.append_nil, hrequests,
      requestsOf, hphase, phaseToGoOn]
    -- the request was in the client's hands, or there is none
    cases hrequest : machine.requestOf st client with
    | none =>
      rw [requestOf] at hrequest
      rw [hrequest, Option.isSome_none, if_neg Bool.false_ne_true, if_pos rfl]
      rfl
    | some request =>
      rw [requestOf] at hrequest
      rw [hrequest, Option.isSome_some, if_pos rfl, if_neg OperationPhase.noConfusion]
  refine ⟨fun other => ?_, fun other hbusy => ?_, fun other => ?_, ?_, ?_, ?_⟩
  · by_cases heq : other = client
    · subst heq
      simp only [Function.update_self]
      exact (h.reachable other).tail hclock hs
    · simp only [Function.update_of_ne heq]
      exact h.reachable other
  · have hbefore : Function.update st.phases client .outside other ≠ .outside := hbusy
    by_cases heq : other = client
    · subst heq
      rw [Function.update_self] at hbefore
      exact absurd rfl hbefore
    · rw [Function.update_of_ne heq] at hbefore
      show (nextRequest (machine.loopConfig other)
        (Function.update st.loops client loop other)).isSome
      rw [Function.update_of_ne heq]
      exact h.busy other hbefore
  · rw [hshares]
    exact h.sentBy other
  · rw [hshares]
    exact h.sent
  · have hmoved := clientsIn_update st hclient .sent .outside (Function.update st.loops client loop)
      st.totalOpsExecuted st.sent
    have hcounted := h.counted
    have hnotSent : st.phases client ≠ .sent := by
      rw [hphase, phaseToGoOn]
      split <;> exact OperationPhase.noConfusion
    rw [if_neg hnotSent, if_neg OperationPhase.noConfusion] at hmoved
    simp only
    omega
  · have hmoved := clientsIn_update st hclient .counted .outside
      (Function.update st.loops client loop)
      st.totalOpsExecuted st.sent
    have hloops := tableWeight_update LoopState.opsExecuted st.loops hclient loop
    have hown := h.ownCounters
    have hphases : (if st.phases client = .counted then 1 else 0)
        = (machine.requestOf st client).toList.length := by
      rw [hphase, phaseToGoOn]
      cases machine.requestOf st client <;> rfl
    rw [hphases, if_neg OperationPhase.noConfusion] at hmoved
    rw [hops] at hloops
    unfold opsExecutedByClients at hown ⊢
    unfold requestOf at hmoved
    simp only
    omega

/-- Every step keeps the invariant. -/
theorem ClientsOk.step (h : machine.ClientsOk st) {l : MachineLabel} (hclock : SteadyClocks st l)
    (hs : machine.step st l = some st') : machine.ClientsOk st' := by
  cases l with
  | send client =>
    rw [ClientMachine.step] at hs
    split at hs
    · next hcan =>
      obtain ⟨request, hrequest, rfl⟩ := Option.map_eq_some_iff.mp hs
      exact h.send hcan.1 hcan.2 hrequest
    · cases hs
  | count client =>
    rw [ClientMachine.step] at hs
    split at hs
    · next hcan =>
      cases hs
      exact h.count hcan.1 hcan.2
    · cases hs
  | loop client label =>
    rw [ClientMachine.step] at hs
    split at hs
    · next hcan =>
      obtain ⟨loop, hloop, rfl⟩ := Option.map_eq_some_iff.mp hs
      exact h.loop hcan.1 hcan.2 hclock hloop
    · cases hs

/-- The invariant holds in every state. -/
theorem Reaches.ok (h : machine.Reaches st) : machine.ClientsOk st :=
  h.invariant (I := machine.ClientsOk) (clientsOk_initial machine)
    fun _ _ _ _ hok hclock hs => hok.step hclock hs

/-- What holds of one loop holds of every client's. -/
theorem ClientsOk.loopInvariant (h : machine.ClientsOk st) (client : ℕ) :
    LoopInvariant (machine.loopConfig client) (st.loops client) :=
  loopInvariant_of_reachable _ (h.reachable client)

/-- What a client has sent are passes over its operations, the last of which may not be complete. -/
theorem ClientsOk.requestsOf_prefix (h : machine.ClientsOk st) (client : ℕ) :
    ∃ n, machine.requestsOf st client <+: passes (machine.loopConfig client) n := by
  have hinv := h.loopInvariant client
  rw [requestsOf]
  split
  · rw [List.append_nil]
    exact hinv.repeats
  · next hbusy =>
    have hsome := h.busy client hbusy
    rw [requestOf] at hsome ⊢
    unfold nextRequest at hsome ⊢
    split at hsome
    · next operation rest hplace =>
      split at hsome
      · cases hsome
      · next hnode =>
        rw [if_neg hnode]
        obtain ⟨sent, hsent, hpass⟩ := (hinv.inPass _ hplace).requests
        rw [pass_cons rest hnode] at hpass
        refine ⟨(st.loops client).passEnds.length + 1, ?_⟩
        -- the operation in hand is the next one of the pass
        rw [passes_succ, hpass, hsent, List.append_assoc]
        refine List.prefix_append_right_inj _ |>.mpr ?_
        exact ⟨((machine.loopConfig client).pass rest).1, by simp⟩
    · cases hsome

/-- A client's requests are passes over its chunk. -/
theorem ClientsOk.exists_prefix (h : machine.ClientsOk st)
    (hycsb : machine.distributionType ≠ .ycsb)
    {client : ℕ} (hclient : client < machine.numClients)
    (hvalid : ∀ operation ∈ machine.ops, operation.node.toInt ≤ (machine.numNodes : ℤ)) :
    ∃ n, ((st.sent.filter fun entry => entry.1 = client).map fun entry => requestTarget entry.2) <+:
      (List.replicate n ((machine.opsChunk client).map machine.target)).flatten := by
  obtain ⟨n, hpasses⟩ := h.requestsOf_prefix client
  refine ⟨n, ?_⟩
  have htargets := hpasses.map requestTarget
  rw [targets_passes hycsb hclient hvalid, ← h.sentBy client, List.map_map] at htargets
  exact htargets

/-- A client whose loop has ended is busy with nothing. -/
theorem ClientsOk.requestsOf_done (h : machine.ClientsOk st) {client : ℕ}
    (hdone : (st.loops client).place = .done) :
    machine.requestsOf st client = (st.loops client).requests := by
  rw [requestsOf]
  split
  · exact List.append_nil _
  · next hbusy =>
    have hsome := h.busy client hbusy
    rw [requestOf, nextRequest, hdone] at hsome
    cases hsome

/-- The requests after `k` completed passes of every client. -/
theorem ClientsOk.perm_of_completed (h : machine.ClientsOk st)
    (hycsb : machine.distributionType ≠ .ycsb) (hclients : 1 ≤ machine.numClients)
    (hvalid : ∀ operation ∈ machine.ops, operation.node.toInt ≤ (machine.numNodes : ℤ)) {k : ℕ}
    (hdone : ∀ client < machine.numClients, machine.Completed st k client) :
    (st.sent.map fun entry => requestTarget entry.2).Perm
      (List.replicate k (machine.ops.map machine.target)).flatten := by
  have htargets := h.sent.map requestTarget
  rw [List.map_map, List.map_flatMap] at htargets
  -- a client's share is its chunk `k` times, and the chunks make up `ops`
  have hshares : ((List.range machine.numClients).flatMap fun client =>
        (machine.requestsOf st client).map requestTarget)
      = (List.range machine.numClients).flatMap fun client =>
        (List.replicate k ((machine.opsChunk client).map machine.target)).flatten := by
    refine List.flatMap_congr fun client hmem => ?_
    have hclient := List.mem_range.mp hmem
    have hcompleted := hdone client hclient
    rw [h.requestsOf_done hcompleted.done, hcompleted.requests (h.loopInvariant client).toMeasures,
      targets_passes hycsb hclient hvalid]
  have hops : ((List.range machine.numClients).flatMap fun client =>
      (machine.opsChunk client).map machine.target) = machine.ops.map machine.target := by
    rw [← List.map_flatMap, flatMap_opsChunk hycsb hclients]
  have hall := flatMap_replicate_perm (fun client => (machine.opsChunk client).map machine.target)
    machine.numClients k
  rw [hshares] at htargets
  rw [hops] at hall
  exact htargets.trans hall

/-- **The clients go through the machine's operations.** Let the distribution not be `YCSB`. In
every state that the clients of a machine reach, whatever the order of their steps, the answers and
their clocks: `total_ops_executed` has counted all requests but those of the clients that wait for
an answer, and the clients' own counters all that it has counted but those of the clients between
the two; what a client has sent are passes over its chunk, the last of which may not be complete;
and once all clients have completed `k` passes, every operation has been sent `k` times. -/
theorem clients_cover_operations (hycsb : machine.distributionType ≠ .ycsb)
    (hclients : 1 ≤ machine.numClients)
    (hvalid : ∀ operation ∈ machine.ops, operation.node.toInt ≤ (machine.numNodes : ℤ))
    (h : machine.Reaches st) :
    st.totalOpsExecuted + machine.clientsIn st .sent = st.sent.length ∧
      st.totalOpsExecuted = machine.opsExecutedByClients st + machine.clientsIn st .counted ∧
      (∀ client < machine.numClients, ∃ n, (((st.sent.filter fun entry => entry.1 = client).map
        fun entry => requestTarget entry.2) <+:
          (List.replicate n ((machine.opsChunk client).map machine.target)).flatten)) ∧
      ∀ k, (∀ client < machine.numClients, machine.Completed st k client) →
        (st.sent.map fun entry => requestTarget entry.2).Perm
          (List.replicate k (machine.ops.map machine.target)).flatten :=
  ⟨h.ok.counted, h.ok.ownCounters, fun _ hclient => h.ok.exists_prefix hycsb hclient hvalid,
    fun _ hdone => h.ok.perm_of_completed hycsb hclients hvalid hdone⟩

end ClientMachine

/-- Two clients in two threads, with three operations for a run of one second. -/
def twoClients : ClientMachine where
  distributionType := .randomDistribution
  ops := [⟨"1", 1, 'R'⟩, ⟨"2", 1, 'R'⟩, ⟨"3", 2, 'R'⟩]
  ycsbFile := fun _ => []
  threads := 2
  clientsPerThread := 1
  clientStartIndex := 1
  numNodes := 2
  valueSize := 1
  totalRuntimeInSeconds := 1

/-- The second client executes its operation while the first one executes two. -/
def onePassEach : List MachineLabel :=
  [.send 0, .send 1, .count 0, .loop 0 (.execute 0 5 9 "A"), .send 0, .count 1,
    .loop 1 (.execute 0 4 1000000000 "A"), .count 0, .loop 0 (.execute 10 15 1000000000 "A"),
    .loop 1 (.test 1000000001), .loop 0 (.test 1000000002)]

/-- Each of the three operations has been sent once. -/
theorem clients_cover_operations_two : ∃ st,
    runLabels twoClients.step twoClients.initial onePassEach = some st ∧ st.totalOpsExecuted = 3 ∧
    (st.sent.map fun entry => requestTarget entry.2).Perm [(2, "1"), (2, "2"), (3, "3")] := by
  have hrun : (runLabels twoClients.step twoClients.initial onePassEach).isSome := rfl
  obtain ⟨st, hst⟩ := Option.isSome_iff_exists.mp hrun
  -- where the loops stand, how many passes they have completed and when they have read the clock
  have hended : (runLabels twoClients.step twoClients.initial onePassEach).map (fun st =>
      (st.totalOpsExecuted, ClientMachine.outcome st 0, ClientMachine.outcome st 1))
      = some (3, (.done, 1, [9, 1000000000]), (.done, 1, [1000000000])) := rfl
  rw [hst, Option.map_some, Option.some_inj, Prod.mk.injEq, Prod.mk.injEq] at hended
  obtain ⟨htotal, hfirst, hsecond⟩ := hended
  refine ⟨st, hst, htotal, ?_⟩
  refine (twoClients.clients_cover_operations (by decide) (by decide) (by decide)
    (reachableUnder_of_runLabels onePassEach (by decide) hst)).2.2.2 1 fun client hclient => ?_
  rcases Nat.le_one_iff_eq_zero_or_eq_one.mp (Nat.le_of_lt_succ hclient) with rfl | rfl
  · exact .of_outcome hfirst (by decide)
  · exact .of_outcome hsecond (by decide)

end TwigKV.Workload
