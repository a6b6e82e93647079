import TwigKV.ClientSync.GetReplies

/-! # The threads of the client machines (`execute_operations`, `ldc.cpp`)

Every client machine runs `FLAGS_threads * FLAGS_clients_per_threads` threads, one for each of its
clients. They meet at four spin loops: on `total_clients_ready` and `workload_ready` before the
operations, on `total_clients_done` and `workload_done` after them. Between the two loops of a pair
the machine's first client runs `sync_with_other_clients`, which is left to the network model.

Client `j` of machine `m` is client `j * numClients + m` of the network, so that the first clients
are the network's first clients. A thread takes one step for each access to an atomic; a loop that
finds its condition false stays where it is, which is no step. A thread's operations are its script:
a fixed list, which has the passes that the clock allows, of operations whose nodes are servers, so
that no thread stops with "Invalid node number". A server answers each request once.
`connect_to_other_clients` is left out. -/

namespace TwigKV.ClientSync

/-- The client machines. -/
structure Fleet where
  /-- The number of client machines. -/
  numClients : ℕ
  /-- `FLAGS_threads * FLAGS_clients_per_threads`. -/
  clientsPerMachine : ℕ
deriving DecidableEq, Repr

/-- The network's number of client `j` of machine `m`. -/
def Fleet.channelOf (f : Fleet) (m j : ℕ) : ℕ := j * f.numClients + m

/-- Where the thread of a client stands in `execute_operations`. -/
inductive WorkerPc where
  /-- Before `total_clients_ready.fetch_add`. -/
  | arriving
  /-- In the loop on `total_clients_ready`. -/
  | awaitingReady
  /-- The first client, in the synchronisation before the operations. -/
  | syncing
  /-- In the loop on `workload_ready`. -/
  | awaitingStart
  /-- In the operations. -/
  | running
  /-- In the loop on `total_clients_done`. -/
  | awaitingDone
  /-- The first client, in the synchronisation after the operations. -/
  | closing
  /-- In the loop on `workload_done`. -/
  | awaitingEnd
  /-- After `execute_operations`. -/
  | returned
deriving DecidableEq, Repr

/-- The places in their order. -/
def WorkerPc.rank : WorkerPc → ℕ
  | .arriving => 0
  | .awaitingReady => 1
  | .syncing => 2
  | .awaitingStart => 3
  | .running => 4
  | .awaitingDone => 5
  | .closing => 6
  | .awaitingEnd => 7
  | .returned => 8

/-- The threads of all client machines, their atomics and the network. -/
structure FleetState where
  /-- The clients' connections. -/
  network : NetworkState
  /-- Where the thread of client `j` of machine `m` stands. -/
  worker : ℕ → ℕ → WorkerPc
  /-- `total_clients_ready` of every machine. -/
  totalClientsReady : ℕ → ℕ
  /-- `workload_ready`. -/
  workloadReady : ℕ → Bool
  /-- `total_clients_done`. -/
  totalClientsDone : ℕ → ℕ
  /-- `workload_done`. -/
  workloadDone : ℕ → Bool

/-- Before any thread has started; `ops` are the operations of every client of the network. -/
def FleetState.initial (f : Fleet) (ops : ℕ → List (String × ℕ)) : FleetState where
  network := .initial (clientScript f.numClients ops)
  worker := fun _ _ => .arriving
  totalClientsReady := fun _ => 0
  workloadReady := fun _ => false
  totalClientsDone := fun _ => 0
  workloadDone := fun _ => false

/-- Who moves. -/
inductive FleetLabel where
  /-- The thread of client `j` of machine `m`. -/
  | worker (m j : ℕ)
  /-- A client inside a call, a connection or a server. -/
  | network (l : NetworkLabel)
deriving DecidableEq, Repr

/-- A thread goes on to a place. -/
def FleetState.goto (st : FleetState) (m j : ℕ) (pc : WorkerPc) : FleetState :=
  { st with worker := update₂ st.worker m j pc }

/-- `total_clients_ready.fetch_add`. -/
def arrive (st : FleetState) (m j : ℕ) : FleetState :=
  { st.goto m j .awaitingReady with
    totalClientsReady := Function.update st.totalClientsReady m (st.totalClientsReady m + 1) }

/-- `workload_ready.store(true)`. -/
def publishReady (st : FleetState) (m j : ℕ) : FleetState :=
  { st.goto m j .awaitingStart with workloadReady := Function.update st.workloadReady m true }

/-- `total_clients_done.fetch_add`. -/
def finishOperations (st : FleetState) (m j : ℕ) : FleetState :=
  { st.goto m j .awaitingDone with
    totalClientsDone := Function.update st.totalClientsDone m (st.totalClientsDone m + 1) }

/-- `workload_done.store(true)`. -/
def publishDone (st : FleetState) (m j : ℕ) : FleetState :=
  { st.goto m j .awaitingEnd with workloadDone := Function.update st.workloadDone m true }

/-- The first client calls `sync_with_other_clients`. -/
def startSync (f : Fleet) (st : FleetState) (m j : ℕ) (pc : WorkerPc) : Option FleetState :=
  match st.network.pc (f.channelOf m j), st.network.script (f.channelOf m j) with
  | .ready, .sync :: rest =>
      some { st.goto m j pc with network := beginSync st.network (f.channelOf m j) rest }
  | _, _ => none

/-- The next operation, or the end of the operations. -/
def runStep (f : Fleet) (st : FleetState) (m j : ℕ) : Option FleetState :=
  match st.network.pc (f.channelOf m j), st.network.script (f.channelOf m j) with
  | .ready, .get key server :: rest =>
      some { st with network := beginGet st.network (f.channelOf m j) key server rest }
  | .ready, _ => some (finishOperations st m j)
  -- the client is in a get
  | _, _ => none

/-- The next step of a thread: `none` where it spins or waits for its call to return. -/
def workerStep (f : Fleet) (st : FleetState) (m j : ℕ) : Option FleetState :=
  match st.worker m j with
  | .arriving => some (arrive st m j)
  | .awaitingReady =>
      if st.totalClientsReady m < f.clientsPerMachine then none
      -- the first client synchronises with the other machines
      else if j = 0 then startSync f st m j .syncing
      else some (st.goto m j .awaitingStart)
  | .syncing =>
      if st.network.pc (f.channelOf m j) = .ready then some (publishReady st m j) else none
  | .awaitingStart => if st.workloadReady m then some (st.goto m j .running) else none
  | .running => runStep f st m j
  | .awaitingDone =>
      if st.totalClientsDone m < f.clientsPerMachine then none
      else if j = 0 then startSync f st m j .closing
      else some (st.goto m j .awaitingEnd)
  | .closing =>
      if st.network.pc (f.channelOf m j) = .ready then some (publishDone st m j) else none
  | .awaitingEnd => if st.workloadDone m then some (st.goto m j .returned) else none
  | .returned => none

/-- Whether a step of the network starts a client's next action, which is up to its thread. -/
def NetworkLabel.isStart : NetworkLabel → Bool
  | .start _ => true
  | _ => false

/-- One step: `none` where the label is not enabled. -/
def fleetStep (f : Fleet) (st : FleetState) : FleetLabel → Option FleetState
  | .worker m j =>
      if m < f.numClients ∧ j < f.clientsPerMachine then workerStep f st m j else none
  | .network l =>
      if l.isStart then none
      else (networkStep f.numClients st.network l).map fun network => { st with network := network }

/-- Machine `m` is the network's client `m`. -/
@[simp] theorem Fleet.channelOf_zero (f : Fleet) (m : ℕ) : f.channelOf m 0 = m := by
  simp [Fleet.channelOf]

/-! ## The moves of a step -/

/-- What a step can do: one constructor for every branch of `fleetStep`. -/
inductive FleetMove (f : Fleet) (st : FleetState) : FleetLabel → FleetState → Prop
  /-- A thread counts itself in. -/
  | arrive {m j : ℕ} (hm : m < f.numClients) (hj : j < f.clientsPerMachine)
      (hpc : st.worker m j = .arriving) : FleetMove f st (.worker m j) (arrive st m j)
  /-- The first client, with all clients of its machine there, starts to synchronise. -/
  | beginSyncing {m : ℕ} {rest : List ClientAction} (hm : m < f.numClients)
      (hj : 0 < f.clientsPerMachine) (hpc : st.worker m 0 = .awaitingReady)
      (hready : f.clientsPerMachine ≤ st.totalClientsReady m) (hclient : st.network.pc m = .ready)
      (hscript : st.network.script m = .sync :: rest) :
      FleetMove f st (.worker m 0)
        { st.goto m 0 .syncing with network := beginSync st.network m rest }
  /-- Another client finds all clients of its machine there. -/
  | skipSyncing {m j : ℕ} (hm : m < f.numClients) (hj : j < f.clientsPerMachine) (hfirst : j ≠ 0)
      (hpc : st.worker m j = .awaitingReady)
      (hready : f.clientsPerMachine ≤ st.totalClientsReady m) :
      FleetMove f st (.worker m j) (st.goto m j .awaitingStart)
  /-- The machines are synchronised. -/
  | publishReady {m j : ℕ} (hm : m < f.numClients) (hj : j < f.clientsPerMachine)
      (hpc : st.worker m j = .syncing) (hclient : st.network.pc (f.channelOf m j) = .ready) :
      FleetMove f st (.worker m j) (publishReady st m j)
  /-- A client begins its operations. -/
  | beginRun {m j : ℕ} (hm : m < f.numClients) (hj : j < f.clientsPerMachine)
      (hpc : st.worker m j = .awaitingStart) (hready : st.workloadReady m = true) :
      FleetMove f st (.worker m j) (st.goto m j .running)
  /-- A client issues an operation. -/
  | issue {m j server : ℕ} {key : String} {rest : List ClientAction} (hm : m < f.numClients)
      (hj : j < f.clientsPerMachine) (hpc : st.worker m j = .running)
      (hclient : st.network.pc (f.channelOf m j) = .ready)
      (hscript : st.network.script (f.channelOf m j) = .get key server :: rest) :
      FleetMove f st (.worker m j)
        { st with network := beginGet st.network (f.channelOf m j) key server rest }
  /-- A client has no operations left. -/
  | finishOperations {m j : ℕ} (hm : m < f.numClients) (hj : j < f.clientsPerMachine)
      (hpc : st.worker m j = .running) (hclient : st.network.pc (f.channelOf m j) = .ready)
      (hscript : ∀ key server rest,
        st.network.script (f.channelOf m j) ≠ .get key server :: rest) :
      FleetMove f st (.worker m j) (finishOperations st m j)
  /-- The first client, with all clients of its machine done, starts to synchronise. -/
  | beginClosing {m : ℕ} {rest : List ClientAction} (hm : m < f.numClients)
      (hj : 0 < f.clientsPerMachine) (hpc : st.worker m 0 = .awaitingDone)
      (hdone : f.clientsPerMachine ≤ st.totalClientsDone m) (hclient : st.network.pc m = .ready)
      (hscript : st.network.script m = .sync :: rest) :
      FleetMove f st (.worker m 0)
        { st.goto m 0 .closing with network := beginSync st.network m rest }
  /-- Another client finds all clients of its machine done. -/
  | skipClosing {m j : ℕ} (hm : m < f.numClients) (hj : j < f.clientsPerMachine) (hfirst : j ≠ 0)
      (hpc : st.worker m j = .awaitingDone)
      (hdone : f.clientsPerMachine ≤ st.totalClientsDone m) :
      FleetMove f st (.worker m j) (st.goto m j .awaitingEnd)
  /-- The machines are synchronised. -/
  | publishDone {m j : ℕ} (hm : m < f.numClients) (hj : j < f.clientsPerMachine)
      (hpc : st.worker m j = .closing) (hclient : st.network.pc (f.channelOf m j) = .ready) :
      FleetMove f st (.worker m j) (publishDone st m j)
  /-- A client returns. -/
  | finish {m j : ℕ} (hm : m < f.numClients) (hj : j < f.clientsPerMachine)
      (hpc : st.worker m j = .awaitingEnd) (hdone : st.workloadDone m = true) :
      FleetMove f st (.worker m j) (st.goto m j .returned)
  /-- A step inside a call, of a connection or of a server. -/
  | network {l : NetworkLabel} {network : NetworkState} (hl : l.isStart = false)
      (hs : networkStep f.numClients st.network l = some network) :
      FleetMove f st (.network l) { st with network := network }

/-- A synchronisation that starts. -/
theorem startSync_cases {f : Fleet} {st st' : FleetState} {m j : ℕ} {pc : WorkerPc}
    (hs : startSync f st m j pc = some st') :
    ∃ rest, st.network.pc (f.channelOf m j) = .ready ∧
      st.network.script (f.channelOf m j) = .sync :: rest ∧
      st' = { st.goto m j pc with network := beginSync st.network (f.channelOf m j) rest } := by
  unfold startSync at hs
  split at hs
  · next hclient hscript => exact ⟨_, hclient, hscript, (Option.some.inj hs).symm⟩
  · cases hs

/-- The thread of a client takes one of the moves. -/
theorem fleetMove_of_workerStep {f : Fleet} {st st' : FleetState} {m j : ℕ}
    (hm : m < f.numClients) (hj : j < f.clientsPerMachine) (hs : workerStep f st m j = some st') :
    FleetMove f st (.worker m j) st' := by
  unfold workerStep at hs
  split at hs
  case h_1 hpc => exact Option.some.inj hs ▸ .arrive hm hj hpc
  case h_2 hpc =>
    split at hs
    · cases hs
    · next hready =>
      split at hs
      · next hfirst =>
        obtain ⟨rest, hclient, hscript, rfl⟩ := startSync_cases hs
        subst hfirst
        rw [Fleet.channelOf_zero] at hclient hscript ⊢
        exact .beginSyncing hm hj hpc (Nat.not_lt.mp hready) hclient hscript
      · next hfirst =>
        exact Option.some.inj hs ▸ .skipSyncing hm hj hfirst hpc (Nat.not_lt.mp hready)
  case h_3 hpc =>
    split at hs
    · next hclient => exact Option.some.inj hs ▸ .publishReady hm hj hpc hclient
    · cases hs
  case h_4 hpc =>
    split at hs
    · next hready => exact Option.some.inj hs ▸ .beginRun hm hj hpc hready
    · cases hs
  case h_5 hpc =>
    unfold runStep at hs
    split at hs
    case h_1 hclient hscript => exact Option.some.inj hs ▸ .issue hm hj hpc hclient hscript
    case h_2 hclient hscript =>
      exact Option.some.inj hs ▸ .finishOperations hm hj hpc hclient hscript
    case h_3 => cases hs
  case h_6 hpc =>
    split at hs
    · cases hs
    · next hdone =>
      split at hs
      · next hfirst =>
        obtain ⟨rest, hclient, hscript, rfl⟩ := startSync_cases hs
        subst hfirst
        rw [Fleet.channelOf_zero] at hclient hscript ⊢
        exact .beginClosing hm hj hpc (Nat.not_lt.mp hdone) hclient hscript
      · next hfirst =>
        exact Option.some.inj hs ▸ .skipClosing hm hj hfirst hpc (Nat.not_lt.mp hdone)
  case h_7 hpc =>
    split at hs
    · next hclient => exact Option.some.inj hs ▸ .publishDone hm hj hpc hclient
    · cases hs
  case h_8 hpc =>
    split at hs
    · next hdone => exact Option.some.inj hs ▸ .finish hm hj hpc hdone
    · cases hs
  case h_9 => cases hs

/-- Every step is one of the moves. -/
theorem fleetMove_of_step {f : Fleet} {st st' : FleetState} {l : FleetLabel}
    (hs : fleetStep f st l = some st') : FleetMove f st l st' := by
  unfold fleetStep at hs
  split at hs
  case h_1 m j =>
    split at hs
    · next hmj => exact fleetMove_of_workerStep hmj.1 hmj.2 hs
    · cases hs
  case h_2 l =>
    split at hs
    · cases hs
    · next hl =>
      obtain ⟨network, hstep, rfl⟩ := Option.map_eq_some_iff.mp hs
      exact .network (Bool.not_eq_true _ ▸ hl) hstep

end TwigKV.ClientSync
