import TwigKV.Traces.TraceFile
import TwigKV.Server.Endpoints

/-! # Executing a trace (`ldc.cpp`, `operations.cpp`)

`client_worker` counts the client machines in front of the first server and hands
`execute_operations` the index from which nodes are counted. A pass over the operations stops at a
node beyond `NUM_NODES`. It does not look for nodes below `1`, and it does not look at the operation
code: every operation is a get. `executeOperations`, which no one calls, tells the codes apart.

A pass follows its trace exactly when all its operations are reads and no node below `1` comes
before the first one beyond `NUM_NODES` (`followsTrace_iff`). What the answers are compared with,
the times that are taken and the end of the run time play no part in a full pass. -/

namespace TwigKV.Traces

open TwigKV.Server (RemoteMachineConfig)

/-- A request of a client. -/
inductive Request where
  /-- `client.get`. -/
  | get (index : ℤ) (threadIndex : ℕ) (key : String)
  /-- `client.put`. -/
  | put (index : ℤ) (threadIndex : ℕ) (key value : String)
deriving DecidableEq, Repr

/-- The machine that a request contacts. -/
def Request.index : Request → ℤ
  | .get index _ _ => index
  | .put index _ _ _ => index

/-- How a pass over the operations ends. -/
inductive PassEnd where
  /-- After the last operation. -/
  | done
  /-- By a `panic`, with its text. -/
  | panic (text : String)
deriving DecidableEq, Repr

/-- The text of the panic at a node. -/
def invalidNode (node : Int32) : String := "Invalid node number " ++ toString node.toInt

/-- `execute_operations`: the requests of one pass over the operations, and its end. -/
def executeOperations (clientStartIndex : ℤ) (numNodes threadIndex : ℕ) :
    List Operation → List Request × PassEnd
  | [] => ([], .done)
  | operation :: operationSet =>
    if (numNodes : ℤ) < operation.node.toInt then ([], .panic (invalidNode operation.node))
    else
      let rest := executeOperations clientStartIndex numNodes threadIndex operationSet
      (.get (operation.node.toInt + clientStartIndex) threadIndex operation.key :: rest.1, rest.2)

/-- The loop of `client_worker` over the machines: how many there are in front of the first
server. -/
def startClientIndex : List RemoteMachineConfig → ℕ
  | [] => 0
  | machine :: remoteMachineConfigs =>
    if machine.server then 0 else startClientIndex remoteMachineConfigs + 1

/-- `client_worker` on a trace file: what `execute_operations` does with the operations in it. -/
def clientWorker (remoteMachineConfigs : List RemoteMachineConfig) (numNodes threadIndex : ℕ)
    (file : List Char) : List Request × PassEnd :=
  executeOperations (startClientIndex remoteMachineConfigs - 1 : ℤ) numNodes threadIndex
    (loadOperationSetFromFile file)

/-! ## What a trace says -/

/-- The `NUM_NODES` servers follow the client machines. -/
structure ServersFollowClients (remoteMachineConfigs : List RemoteMachineConfig)
    (clients numNodes : ℕ) : Prop where
  /-- There are no other machines. -/
  length_eq : remoteMachineConfigs.length = clients + numNodes
  /-- The clients come first. -/
  server_eq : ∀ i machine, remoteMachineConfigs[i]? = some machine →
    machine.server = decide (clients ≤ i)

/-- The node is one of `1..NUM_NODES`. -/
def validNode (numNodes : ℕ) (operation : Operation) : Bool :=
  decide (1 ≤ operation.node.toInt ∧ operation.node.toInt ≤ numNodes)

/-- The request that an operation code denotes, as `executeOperations` tells the codes apart: a get
for `READ_OP`, a put of the value for `INSERT_OP` and `UPDATE_OP`, and nothing for any other. The
servers are numbered from `1`, behind the clients. -/
def requestOf (clients threadIndex : ℕ) (value : String) (operation : Operation) : Option Request :=
  if operation.op = 'R' then
    some (.get (clients + (operation.node.toInt - 1)) threadIndex operation.key)
  else if operation.op = 'I' ∨ operation.op = 'U' then
    some (.put (clients + (operation.node.toInt - 1)) threadIndex operation.key value)
  else none

/-- The end of a pass that stops at the first invalid node. -/
def traceEnd (numNodes : ℕ) (operationSet : List Operation) : PassEnd :=
  match operationSet.find? fun operation => !validNode numNodes operation with
  | none => .done
  | some operation => .panic (invalidNode operation.node)

/-- **A pass follows the trace**: its requests are those of the operations in front of the first
invalid node, in order, it stops there, and it contacts servers only. -/
structure FollowsTrace (remoteMachineConfigs : List RemoteMachineConfig)
    (clients numNodes threadIndex : ℕ) (value : String) (operationSet : List Operation)
    (pass : List Request × PassEnd) : Prop where
  /-- The requests. -/
  requests : pass.1 = (operationSet.takeWhile (validNode numNodes)).filterMap
    (requestOf clients threadIndex value)
  /-- The end. -/
  stops : pass.2 = traceEnd numNodes operationSet
  /-- The machines. -/
  servers : ∀ request ∈ pass.1, ∃ i machine, request.index = (i : ℕ) ∧
    remoteMachineConfigs[i]? = some machine ∧ machine.server = true

/-- The operations in front of the first invalid node are reads, and that node, if there is one, is
beyond `NUM_NODES`. -/
def ReadsUpToLargeNode (numNodes : ℕ) (operationSet : List Operation) : Prop :=
  (∀ operation ∈ operationSet.takeWhile (validNode numNodes), operation.op = 'R') ∧
  ∀ operation, operationSet.find? (fun operation => !validNode numNodes operation)
    = some operation →
    (numNodes : ℤ) < operation.node.toInt

/-! ## The machines -/

/-- The loop of `client_worker` counts the clients. -/
theorem startClientIndex_eq {remoteMachineConfigs : List RemoteMachineConfig} {clients numNodes : ℕ}
    (h : ServersFollowClients remoteMachineConfigs clients numNodes) :
    startClientIndex remoteMachineConfigs = clients := by
  induction remoteMachineConfigs generalizing clients with
  | nil =>
      have hlength := h.length_eq
      rw [List.length_nil] at hlength
      rw [startClientIndex]
      omega
  | cons machine remoteMachineConfigs ih =>
      have hfirst := h.server_eq 0 machine rfl
      have hlength := h.length_eq
      rw [List.length_cons] at hlength
      rw [startClientIndex]
      cases clients with
      | zero => rw [if_pos (hfirst.trans (decide_eq_true (Nat.zero_le 0)))]
      | succ clients =>
        have htail : ServersFollowClients remoteMachineConfigs clients numNodes := by
          refine ⟨by omega, fun i m hm => ?_⟩
          rw [h.server_eq (i + 1) m hm]
          simp only [Nat.add_le_add_iff_right]
        rw [hfirst, if_neg (by simp), ih htail]

/-- A valid node is the number of a server. -/
theorem server_of_validNode {remoteMachineConfigs : List RemoteMachineConfig} {clients numNodes : ℕ}
    (h : ServersFollowClients remoteMachineConfigs clients numNodes) {operation : Operation}
    (hvalid : validNode numNodes operation = true) :
    ∃ i machine, (clients : ℤ) + (operation.node.toInt - 1) = (i : ℕ) ∧
      remoteMachineConfigs[i]? = some machine ∧ machine.server = true := by
  obtain ⟨hone, hle⟩ := of_decide_eq_true hvalid
  have hlength : clients + (operation.node.toInt - 1).toNat < remoteMachineConfigs.length := by
    rw [h.length_eq]
    omega
  refine ⟨clients + (operation.node.toInt - 1).toNat, _, by omega,
    List.getElem?_eq_getElem hlength, ?_⟩
  rw [h.server_eq _ _ (List.getElem?_eq_getElem hlength)]
  exact decide_eq_true (Nat.le_add_right _ _)

/-! ## Passes that follow their trace -/

section Pass

variable {clients numNodes threadIndex : ℕ} {value : String} {operation : Operation}
  {operationSet : List Operation}

/-- What a request of an operation contacts. -/
theorem index_of_requestOf {request : Request}
    (h : requestOf clients threadIndex value operation = some request) :
    request.index = clients + (operation.node.toInt - 1) := by
  unfold requestOf at h
  split at h
  · cases h
    rfl
  · split at h
    · cases h
      rfl
    · cases h

/-- An operation with a valid node in front adds its own request and keeps the end. -/
theorem expected_cons_of_validNode (h : validNode numNodes operation = true) :
    (((operation :: operationSet).takeWhile (validNode numNodes)).filterMap
        (requestOf clients threadIndex value)
      = (requestOf clients threadIndex value operation).toList ++
        (operationSet.takeWhile (validNode numNodes)).filterMap
          (requestOf clients threadIndex value)) ∧
      traceEnd numNodes (operation :: operationSet) = traceEnd numNodes operationSet := by
  constructor
  · rw [List.takeWhile_cons_of_pos h]
    cases hrequest : requestOf clients threadIndex value operation with
    | none => rw [List.filterMap_cons_none hrequest]; rfl
    | some request => rw [List.filterMap_cons_some hrequest]; rfl
  · rw [traceEnd, List.find?_cons_of_neg (by simp [h]), ← traceEnd]

/-- An operation with an invalid node is the end of the trace. -/
theorem expected_cons_of_not_validNode (h : validNode numNodes operation = false) :
    ((operation :: operationSet).takeWhile (validNode numNodes)).filterMap
        (requestOf clients threadIndex value) = [] ∧
      traceEnd numNodes (operation :: operationSet) = .panic (invalidNode operation.node) := by
  constructor
  · rw [List.takeWhile_cons_of_neg (by simp [h])]
    rfl
  · rw [traceEnd, List.find?_cons_of_pos (by simp [h])]

/-- An operation with a valid node in front has to be a read. -/
theorem readsUpToLargeNode_cons_of_validNode (h : validNode numNodes operation = true) :
    ReadsUpToLargeNode numNodes (operation :: operationSet) ↔
      operation.op = 'R' ∧ ReadsUpToLargeNode numNodes operationSet := by
  rw [ReadsUpToLargeNode, ReadsUpToLargeNode, List.takeWhile_cons_of_pos h,
    List.find?_cons_of_neg (by simp [h]), List.forall_mem_cons, and_assoc]

/-- An operation with an invalid node in front has to be beyond `NUM_NODES`. -/
theorem readsUpToLargeNode_cons_of_not_validNode (h : validNode numNodes operation = false) :
    ReadsUpToLargeNode numNodes (operation :: operationSet) ↔
      (numNodes : ℤ) < operation.node.toInt := by
  rw [ReadsUpToLargeNode, List.takeWhile_cons_of_neg (by simp [h]),
    List.find?_cons_of_pos (by simp [h])]
  simp

/-- A pass makes a request for every operation in front of the first invalid node at least. -/
theorem length_takeWhile_le (clientStartIndex : ℤ) (numNodes threadIndex : ℕ)
    (operationSet : List Operation) : (operationSet.takeWhile (validNode numNodes)).length
      ≤ (executeOperations clientStartIndex numNodes threadIndex operationSet).1.length := by
  induction operationSet with
  | nil => exact Nat.le_refl 0
  | cons operation operationSet ih =>
      rw [executeOperations]
      cases hvalid : validNode numNodes operation with
      | false =>
        rw [List.takeWhile_cons_of_neg (by simp [hvalid])]
        exact Nat.zero_le _
      | true =>
        have hle := (of_decide_eq_true hvalid).2
        rw [List.takeWhile_cons_of_pos hvalid, if_neg (Int.not_lt.mpr hle)]
        exact Nat.succ_le_succ ih

/-- The requests and the end of a pass are those of the trace exactly when its operations are reads
as far as they should be executed. -/
theorem executeOperations_eq_iff (clients numNodes threadIndex : ℕ) (value : String)
    (operationSet : List Operation) :
    ((executeOperations (clients - 1 : ℤ) numNodes threadIndex operationSet).1
        = (operationSet.takeWhile (validNode numNodes)).filterMap
          (requestOf clients threadIndex value) ∧
      (executeOperations (clients - 1 : ℤ) numNodes threadIndex operationSet).2
        = traceEnd numNodes operationSet) ↔ ReadsUpToLargeNode numNodes operationSet := by
  induction operationSet with
  | nil => exact ⟨fun _ => ⟨by simp, by simp⟩, fun _ => ⟨rfl, rfl⟩⟩
  | cons operation operationSet ih =>
      rw [executeOperations]
      cases hvalid : validNode numNodes operation with
      | false =>
        obtain ⟨hrequests, hend⟩ := @expected_cons_of_not_validNode clients numNodes threadIndex
          value operation operationSet hvalid
        rw [hrequests, hend, readsUpToLargeNode_cons_of_not_validNode hvalid]
        split
        · next hlarge => exact ⟨fun _ => hlarge, fun _ => ⟨rfl, rfl⟩⟩
        · next hsmall =>
          -- a node below 1 is contacted
          exact ⟨fun h => absurd h.1 (List.cons_ne_nil _ _), fun h => absurd h hsmall⟩
      | true =>
        obtain ⟨hrequests, hend⟩ := @expected_cons_of_validNode clients numNodes threadIndex value
          operation operationSet hvalid
        have hle := (of_decide_eq_true hvalid).2
        rw [if_neg (Int.not_lt.mpr hle), hrequests, hend,
          readsUpToLargeNode_cons_of_validNode hvalid, ← ih]
        by_cases hread : operation.op = 'R'
        · have hindex : operation.node.toInt + (clients - 1 : ℤ)
              = clients + (operation.node.toInt - 1) := by omega
          rw [requestOf, if_pos hread, hindex, Option.toList_some, List.singleton_append,
            List.cons.injEq]
          simp only [true_and, hread]
        · refine ⟨fun h => absurd h.1 ?_, fun h => absurd h.1 hread⟩
          rw [requestOf, if_neg hread]
          split
          · -- a put is sent as a get
            simp
          · -- an operation of another kind is sent at all
            intro heq
            have hlength := congrArg List.length heq
            have hmore := length_takeWhile_le (clients - 1) numNodes threadIndex operationSet
            have hfew := List.length_filterMap_le (requestOf clients threadIndex value)
              (operationSet.takeWhile (validNode numNodes))
            rw [Option.toList_none, List.nil_append, List.length_cons] at hlength
            omega

end Pass

/-- **When a pass follows its trace.** For every layout in which the servers follow the clients and
every trace file, the pass over its operations follows the trace if and only if the operations in
front of the first node outside `1..NUM_NODES` are reads and that node, if there is one, is beyond
`NUM_NODES`. -/
theorem followsTrace_iff {remoteMachineConfigs : List RemoteMachineConfig} {clients numNodes : ℕ}
    (h : ServersFollowClients remoteMachineConfigs clients numNodes) (threadIndex : ℕ)
    (value : String) (file : List Char) :
    FollowsTrace remoteMachineConfigs clients numNodes threadIndex value
        (loadOperationSetFromFile file)
        (clientWorker remoteMachineConfigs numNodes threadIndex file) ↔
      ReadsUpToLargeNode numNodes (loadOperationSetFromFile file) := by
  rw [clientWorker, startClientIndex_eq h, ← executeOperations_eq_iff clients numNodes threadIndex
    value]
  constructor
  · exact fun hfollows => ⟨hfollows.requests, hfollows.stops⟩
  · rintro ⟨hrequests, hstops⟩
    refine ⟨hrequests, hstops, fun request hmem => ?_⟩
    rw [hrequests] at hmem
    obtain ⟨operation, hoperation, hrequest⟩ := List.mem_filterMap.mp hmem
    rw [index_of_requestOf hrequest]
    exact server_of_validNode h (List.mem_takeWhile_imp hoperation)

/-- One client and two servers: a trace of a read of the second server and a node beyond it. -/
theorem followsTrace_iff_reads :
    FollowsTrace [⟨1, 9000, false⟩, ⟨2, 9000, true⟩, ⟨3, 9000, true⟩] 1 2 0 "AA"
      (loadOperationSetFromFile (dumpOperationSetToFile [⟨"17", 2, 'R'⟩, ⟨"4", 3, 'R'⟩]))
      (clientWorker [⟨1, 9000, false⟩, ⟨2, 9000, true⟩, ⟨3, 9000, true⟩] 2 0
        (dumpOperationSetToFile [⟨"17", 2, 'R'⟩, ⟨"4", 3, 'R'⟩])) := by
  refine (followsTrace_iff ⟨rfl, fun i machine hi => ?_⟩ 0 "AA" _).mpr ?_
  · rcases i with _ | _ | _ | i
    · cases hi; rfl
    · cases hi; rfl
    · cases hi; rfl
    · cases hi
  · have hload : loadOperationSetFromFile (dumpOperationSetToFile [⟨"17", 2, 'R'⟩, ⟨"4", 3, 'R'⟩])
        = [⟨"17", 2, 'R'⟩, ⟨"4", 3, 'R'⟩] :=
      Extraction.readAll_flatMap fun operation hmem cs => ⟨'\n', by decide, by
        rcases List.mem_cons.mp hmem with rfl | hmem
        · exact run_writeOperation ⟨by decide, by simp [isSpace], by decide⟩ cs
        · rw [List.mem_singleton.mp hmem]
          exact run_writeOperation ⟨by decide, by simp [isSpace], by decide⟩ cs⟩
    rw [hload]
    refine ⟨by decide, fun operation hfind => ?_⟩
    cases hfind
    decide

/-- The only operation of a trace file. -/
theorem loadOperationSetFromFile_writeOperation {operation : Operation} (h : operation.WellFormed) :
    loadOperationSetFromFile (dumpOperationSetToFile [operation]) = [operation] :=
  Extraction.readAll_flatMap fun _ hmem cs =>
    ⟨'\n', by decide, List.mem_singleton.mp hmem ▸ run_writeOperation h cs⟩

/-- One client and one server: an update is sent as a get, and an operation on node `0` is sent to
the client. -/
theorem not_followsTrace_update_and_zero :
    (clientWorker [⟨1, 9000, false⟩, ⟨2, 9000, true⟩] 1 0 (dumpOperationSetToFile [⟨"17", 1, 'U'⟩]))
        = ([.get 1 0 "17"], .done) ∧
      ¬ FollowsTrace [⟨1, 9000, false⟩, ⟨2, 9000, true⟩] 1 1 0 "AA"
        (loadOperationSetFromFile (dumpOperationSetToFile [⟨"17", 1, 'U'⟩]))
        (clientWorker [⟨1, 9000, false⟩, ⟨2, 9000, true⟩] 1 0
          (dumpOperationSetToFile [⟨"17", 1, 'U'⟩])) ∧
      (clientWorker [⟨1, 9000, false⟩, ⟨2, 9000, true⟩] 1 0
        (dumpOperationSetToFile [⟨"17", 0, 'R'⟩]))
        = ([.get 0 0 "17"], .done) ∧
      ¬ FollowsTrace [⟨1, 9000, false⟩, ⟨2, 9000, true⟩] 1 1 0 "AA"
        (loadOperationSetFromFile (dumpOperationSetToFile [⟨"17", 0, 'R'⟩]))
        (clientWorker [⟨1, 9000, false⟩, ⟨2, 9000, true⟩] 1 0
          (dumpOperationSetToFile [⟨"17", 0, 'R'⟩])) := by
  have hupdate := @loadOperationSetFromFile_writeOperation ⟨"17", 1, 'U'⟩
    ⟨by decide, by simp [isSpace], by decide⟩
  have hzero := @loadOperationSetFromFile_writeOperation ⟨"17", 0, 'R'⟩
    ⟨by decide, by simp [isSpace], by decide⟩
  rw [clientWorker, clientWorker, hupdate, hzero]
  refine ⟨by decide, fun h => ?_, by decide, fun h => ?_⟩
  · exact absurd h.requests (by decide)
  · exact absurd h.requests (by decide)

end TwigKV.Traces
