import TwigKV.ClientSync.ReplyAccounting
import TwigKV.ClientSync.RunBoundaries

/-! # Every run comes to its end

The spin loops, the synchronisations and the gets all wait for something another party does. No
state is a deadlock: as long as some client has not returned, a thread, a connection or a server can
move, unless a machine has stopped with "Client sync failed". And the machines cannot go on for
ever. So every run is at most as long as `runBound` says and can be continued until all clients have
returned or a machine has stopped (`run_completes`). This rests on servers that answer every request
and on operations for servers only; the passes of a client are a fixed list. -/

namespace TwigKV.ClientSync

/-- The servers that a trace names. -/
def serversNamed (n : ℕ) (ops : ℕ → List (String × ℕ)) : ℕ :=
  tableWeight (fun trace => (trace.map Prod.snd).sum) n ops + 1

/-- The parties of a run. -/
def Fleet.parties (f : Fleet) (ops : ℕ → List (String × ℕ)) : Parties where
  numClients := f.numClients
  total := (f.clientsPerMachine + 1) * f.numClients
  numClients_le := Nat.le_mul_of_pos_left _ (Nat.succ_pos _)
  numServers := serversNamed ((f.clientsPerMachine + 1) * f.numClients) ops

/-- A client of a machine is one of the parties. -/
theorem Fleet.channelOf_lt {f : Fleet} (ops : ℕ → List (String × ℕ)) {m j : ℕ}
    (hm : m < f.numClients) (hj : j < f.clientsPerMachine) :
    f.channelOf m j < (f.parties ops).total := by
  have hmul := Nat.mul_le_mul_right f.numClients hj
  rw [Nat.succ_mul] at hmul
  show j * f.numClients + m < (f.clientsPerMachine + 1) * f.numClients
  rw [Nat.succ_mul]
  omega

/-- What holds along a run. -/
structure RunInvariant (f : Fleet) (ops : ℕ → List (String × ℕ)) (st : FleetState) : Prop where
  /-- The threads and the rounds. -/
  fleet : FleetInvariant f st
  /-- The parties of the traffic. -/
  confined : Confined (f.parties ops) st.network
  /-- What the clients' calls wait for. -/
  accounts : ∀ a, AccountOk (f.parties ops) st.network a
  /-- The further clients are in no round. -/
  rounds : ∀ a, f.numClients ≤ a → st.network.round a = 0

variable {f : Fleet} {ops : ℕ → List (String × ℕ)} {st st' : FleetState}

/-- A step of the fleet leaves the network alone or is a step of it, started by a client of it. -/
theorem network_of_fleetMove (ops : ℕ → List (String × ℕ)) {l : FleetLabel}
    (h : FleetMove f st l st') :
    st'.network = st.network ∨ ∃ nl, networkStep f.numClients st.network nl = some st'.network ∧
      ∀ a, nl = .start a → a < (f.parties ops).total := by
  cases h with
  | arrive | skipSyncing | publishReady | beginRun | finishOperations | skipClosing | publishDone
  | finish => exact Or.inl rfl
  | @beginSyncing m rest hm hj hpc hready hclient hscript
  | @beginClosing m rest hm hj hpc hdone hclient hscript =>
    refine Or.inr ⟨.start m, ?_, ?_⟩
    · simp only [networkStep, hclient, hscript]
    · intro a ha
      cases ha
      have hlt := Fleet.channelOf_lt ops hm hj
      rwa [Fleet.channelOf_zero] at hlt
  | @issue m j server key rest hm hj hpc hclient hscript =>
    refine Or.inr ⟨.start (f.channelOf m j), ?_, ?_⟩
    · simp only [networkStep, hclient, hscript]
    · intro a ha
      cases ha
      exact Fleet.channelOf_lt ops hm hj
  | network hl hs =>
    refine Or.inr ⟨_, hs, ?_⟩
    intro a ha
    rw [ha] at hl
    cases hl

/-- A step of the fleet brings no further client into a round. -/
theorem round_of_fleetMove {l : FleetLabel} (h : FleetMove f st l st') {a : ℕ}
    (ha : f.numClients ≤ a) : st'.network.round a = st.network.round a := by
  cases h with
  | arrive | skipSyncing | publishReady | beginRun | issue | finishOperations | skipClosing
  | publishDone | finish => rfl
  | beginSyncing hm | beginClosing hm =>
    exact Function.update_of_ne (Nat.ne_of_gt (Nat.lt_of_lt_of_le hm ha)) _ _
  | network hl hs => exact congrFun (network_frame hl hs).2.1 a

/-- Every step keeps the invariant. -/
theorem RunInvariant.step {l : FleetLabel} (h : RunInvariant f ops st)
    (hs : fleetStep f st l = some st') : RunInvariant f ops st' := by
  refine ⟨h.fleet.step hs, ?_, ?_, ?_⟩
  · cases network_of_fleetMove ops (fleetMove_of_step hs) with
    | inl hsame => rw [hsame]; exact h.confined
    | inr hstep =>
      obtain ⟨nl, hnet, hstart⟩ := hstep
      exact h.confined.step hstart hnet
  · cases network_of_fleetMove ops (fleetMove_of_step hs) with
    | inl hsame => rw [hsame]; exact h.accounts
    | inr hstep =>
      obtain ⟨nl, hnet, hstart⟩ := hstep
      exact accountOk_step h.accounts h.confined h.fleet.sync hstart hnet
  · intro a ha
    rw [round_of_fleetMove (fleetMove_of_step hs) ha]
    exact h.rounds a ha

/-- Inside calls nothing moves: nothing is under way and no client has anything to send or take. -/
structure Quiet (numClients : ℕ) (st : NetworkState) : Prop where
  /-- The connections are empty. -/
  underWay : ∀ a s, underWay st a s = []
  /-- So are those between the machines. -/
  syncs : ∀ b a, st.syncs b a = []
  /-- No client is sending. -/
  sending : ∀ a i, st.pc a ≠ .sending i
  /-- A get waits for a message. -/
  getting : ∀ a, (st.pc a).isGetting = true → st.channel a = []
  /-- So does a synchronisation. -/
  waiting : ∀ a i indices, st.pc a = .waiting i indices → i < numClients - 1 ∧ st.channel a = []

/-- A network that has no step inside a call. -/
theorem quiet_of_stuck {N : ℕ} {st : NetworkState}
    (h : ∀ l : NetworkLabel, l.isStart = false → networkStep N st l = none) : Quiet N st := by
  constructor
  case underWay =>
    intro a s
    have hrequests : st.requests a s = [] := by
      have hnone := h (.serverReceive s a) rfl
      cases hcase : st.requests a s with
      | nil => rfl
      | cons entry rest => simp [networkStep, hcase] at hnone
    have hunanswered : st.unanswered s = [] := by
      have hnone := h (.answer s 0 "") rfl
      cases hcase : st.unanswered s with
      | nil => rfl
      | cons entry rest => simp [networkStep, hcase, dequeueAt] at hnone
    have hresponses : st.responses s a = [] := by
      have hnone := h (.deliverResponse s a) rfl
      cases hcase : st.responses s a with
      | nil => rfl
      | cons entry rest => simp [networkStep, hcase] at hnone
    simp [ClientSync.underWay, hrequests, hunanswered, hresponses]
  case syncs =>
    intro b a
    have hnone := h (.deliverSync b a) rfl
    cases hcase : st.syncs b a with
    | nil => rfl
    | cons r rest => simp [networkStep, hcase] at hnone
  case sending =>
    intro a i hpc
    have hnone := h (.sendSync a) rfl
    simp only [networkStep, hpc] at hnone
    split at hnone
    · split at hnone <;> cases hnone
    · cases hnone
  case getting =>
    intro a hget
    have hnone := h (.receive a) rfl
    cases hpc : st.pc a with
    | getting request server =>
      cases hchannel : st.channel a with
      | nil => rfl
      | cons packet rest => simp [networkStep, hpc, hchannel] at hnone
    | ready | sending | waiting | panicked => rw [hpc] at hget; cases hget
  case waiting =>
    intro a i indices hpc
    have hi : i < N - 1 := by
      by_contra hge
      have hnone := h (.finishSync a) rfl
      simp only [networkStep, hpc, if_neg hge] at hnone
      split at hnone <;> cases hnone
    refine ⟨hi, ?_⟩
    have hnone := h (.receive a) rfl
    cases hchannel : st.channel a with
    | nil => rfl
    | cons packet rest => simp [networkStep, hpc, hchannel, hi] at hnone

/-- The requests a waiting client has taken from another machine: one for each of its rounds. -/
theorem SyncInvariant.taken_eq {N : ℕ} {st : NetworkState} (h : SyncInvariant N st)
    (hquiet : Quiet N st) {a b : ℕ} (ha : a < N) (hb : b < N) (hba : b ≠ a)
    (hchannel : st.channel a = []) : st.syncsTaken a b = st.round b := by
  have haccounted := h.accounted a ha b hb hba
  have hsent : sentRounds (st.pc b) (st.round b) a = st.round b := by
    cases hpc : st.pc b with
    | sending i => exact absurd hpc (hquiet.sending b i)
    | ready | waiting | getting | panicked => rfl
  simp only [SyncsAccounted, inFlight, hchannel, hquiet.syncs, List.filterMap_nil, List.append_nil,
    List.length_nil, hsent] at haccounted
  exact haccounted

/-- At least `k` from every other entry of a table. -/
theorem mul_le_tableWeight {N a k : ℕ} {table : ℕ → ℕ} (ha : a < N)
    (h : ∀ b < N, b ≠ a → k ≤ table b) : k * (N - 1) ≤ tableWeight id N table := by
  have hmem : a ∈ Finset.range N := Finset.mem_range.mpr ha
  have hrest : ((Finset.range N).erase a).card * k ≤ ∑ b ∈ (Finset.range N).erase a, table b := by
    refine Finset.card_nsmul_le_sum _ _ _ ?_
    intro b hb
    exact h b (Finset.mem_range.mp (Finset.mem_of_mem_erase hb)) (Finset.ne_of_mem_erase hb)
  rw [Finset.card_erase_of_mem hmem, Finset.card_range] at hrest
  have hsum := Finset.add_sum_erase (Finset.range N) table hmem
  unfold tableWeight
  simp only [id]
  rw [Nat.mul_comm]
  omega

/-- A client with an empty channel is owed no reply. -/
theorem pendingReplies_of_quiet {N S a : ℕ} {st : NetworkState} (hquiet : Quiet N st)
    (hchannel : st.channel a = []) : pendingReplies S st a = 0 := by
  simp [pendingReplies, replies, hchannel, tableWeight, hquiet.underWay]

/-- A first client before a synchronisation of its machine. -/
theorem FirstOk.script_sync {worker : WorkerPc} {pc : ClientPc} {script : List ClientAction}
    {round : ℕ} (h : FirstOk worker pc script round)
    (hworker : worker = .awaitingReady ∨ worker = .awaitingDone) :
    ∃ rest, script = .sync :: rest := by
  cases hworker with
  | inl hready =>
    subst hready
    obtain ⟨-, -, ops, hscript⟩ := h
    exact ⟨_, hscript⟩
  | inr hdone =>
    subst hdone
    exact ⟨[], h.2.2⟩

/-- There are two rounds. -/
theorem FirstOk.round_le {worker : WorkerPc} {pc : ClientPc} {script : List ClientAction}
    {round : ℕ} (h : FirstOk worker pc script round) : round ≤ 2 := by
  cases worker <;> simp only [FirstOk] at h <;> omega

/-- Why the thread of a client that is between two actions has no step. -/
def Spinning (w totalReady totalDone : ℕ) (ready done : Bool) : WorkerPc → Prop
  | .awaitingReady => totalReady < w
  | .awaitingStart => ready = false
  | .awaitingDone => totalDone < w
  | .awaitingEnd => done = false
  | .returned => True
  | .arriving | .syncing | .running | .closing => False

/-- A thread spins only where its loop makes it. -/
theorem spinning_of_none {m j : ℕ} (hclient : ClientOk f st m j)
    (hready : st.network.pc (f.channelOf m j) = .ready) (hnone : workerStep f st m j = none) :
    Spinning f.clientsPerMachine (st.totalClientsReady m) (st.totalClientsDone m)
      (st.workloadReady m) (st.workloadDone m) (st.worker m j) := by
  unfold ClientOk at hclient
  cases hpc : st.worker m j with
  | arriving => simp [workerStep, hpc] at hnone
  | syncing | closing => simp [workerStep, hpc, hready] at hnone
  | running =>
    rw [workerStep, hpc] at hnone
    simp only [runStep, hready] at hnone
    split at hnone
    · cases hnone
    · cases hnone
    · next hne _ => exact absurd rfl hne
  | awaitingStart =>
    simp only [workerStep, hpc, ite_eq_right_iff, reduceCtorEq, imp_false] at hnone
    exact Bool.eq_false_of_not_eq_true hnone
  | awaitingEnd =>
    simp only [workerStep, hpc, ite_eq_right_iff, reduceCtorEq, imp_false] at hnone
    exact Bool.eq_false_of_not_eq_true hnone
  | awaitingReady | awaitingDone =>
    by_contra hge
    simp only [Spinning] at hge
    simp only [workerStep, hpc, if_neg hge] at hnone
    split at hnone
    · next hj0 =>
      -- the first client has a synchronisation left to start
      subst hj0
      rw [if_pos rfl, hpc] at hclient
      rw [Fleet.channelOf_zero] at hready
      obtain ⟨rest, hscript⟩ : ∃ rest, st.network.script m = .sync :: rest :=
        hclient.script_sync (by simp)
      simp [startSync, hready, hscript] at hnone
    · cases hnone
  | returned => trivial

namespace RunInvariant

/-- **No get is left waiting.** -/
theorem not_getting (h : RunInvariant f ops st) (hquiet : Quiet f.numClients st.network) (a : ℕ) :
    (st.network.pc a).isGetting = false := by
  by_contra hne
  have hget := Bool.of_not_eq_false hne
  have haccount := h.accounts a
  have hpending := @pendingReplies_of_quiet _ (f.parties ops).numServers _ _ hquiet
    (hquiet.getting a hget)
  cases hpc : st.network.pc a with
  | getting request server =>
    rw [AccountOk, hpc] at haccount
    obtain ⟨-, heq⟩ := haccount ClientPc.noConfusion
    rw [hpending] at heq
    change 0 + st.network.round a * (f.numClients - 1)
      = tableWeight id f.numClients (st.network.syncsTaken a) + 1 at heq
    by_cases ha : a < f.numClients
    · -- the requests of all its rounds were taken, none of them as the reply of this get
      have hheard := h.fleet.sync.heard a ha
      rw [hpc] at hheard
      have hle := mul_le_tableWeight ha hheard
      omega
    · rw [h.rounds a (Nat.not_lt.mp ha), Nat.zero_mul] at heq
      omega
  | ready | sending | waiting | panicked => rw [hpc] at hget; cases hget

/-- A first client that is left waiting has a machine behind it. -/
theorem behind_of_waiting (h : RunInvariant f ops st) (hquiet : Quiet f.numClients st.network)
    {a i : ℕ} {indices : List ℕ} (ha : a < f.numClients)
    (hpc : st.network.pc a = .waiting i indices) :
    ∃ b < f.numClients, st.network.round b < st.network.round a := by
  obtain ⟨hi, hchannel⟩ := hquiet.waiting a i indices hpc
  have haccount := h.accounts a
  rw [AccountOk, hpc] at haccount
  obtain ⟨-, heq⟩ := haccount ClientPc.noConfusion
  rw [pendingReplies_of_quiet hquiet hchannel] at heq
  change 0 + ((st.network.round a - 1) * (f.numClients - 1) + i)
    = tableWeight id f.numClients (st.network.syncsTaken a) + 0 at heq
  have hheard := h.fleet.sync.heard a ha
  rw [hpc] at hheard
  by_contra hnone
  -- the requests of all other machines would have been taken
  have hall : ∀ b < f.numClients, b ≠ a → st.network.round a ≤ st.network.syncsTaken a b := by
    intro b hb hba
    rw [h.fleet.sync.taken_eq hquiet ha hb hba hchannel]
    by_contra hlt
    exact hnone ⟨b, hb, Nat.not_le.mp hlt⟩
  have hle := mul_le_tableWeight ha hall
  have hround : st.network.round a = st.network.round a - 1 + 1 :=
    (Nat.sub_add_cancel hheard.1.1).symm
  rw [hround, Nat.succ_mul] at hle
  omega

/-- **No machine stops halfway.** A machine whose clients are all between two actions has
returned. -/
theorem returned_of_ready (h : RunInvariant f ops st) (hstuck : Stuck (fleetStep f) st) {m : ℕ}
    (hm : m < f.numClients)
    (hready : ∀ j < f.clientsPerMachine, st.network.pc (f.channelOf m j) = .ready) :
    ∀ j < f.clientsPerMachine, st.worker m j = .returned := by
  have hmachine := h.fleet.machines m hm
  have hspinning : ∀ j < f.clientsPerMachine, Spinning f.clientsPerMachine
      (st.totalClientsReady m) (st.totalClientsDone m) (st.workloadReady m) (st.workloadDone m)
      (st.worker m j) := by
    intro j hj
    have hstep := hstuck (.worker m j)
    rw [fleetStep, if_pos ⟨hm, hj⟩] at hstep
    exact spinning_of_none (h.fleet.clients m hm j hj) (hready j hj) hstep
  -- loop by loop: all clients are past it
  have harrived : ∀ j < f.clientsPerMachine, 1 ≤ (st.worker m j).rank := by
    intro j hj
    have hspin := hspinning j hj
    cases hpc : st.worker m j with
    | arriving => rw [hpc] at hspin; exact hspin.elim
    | _ => decide
  have hallReady : f.clientsPerMachine ≤ st.totalClientsReady m := by
    rw [hmachine.readyCount]
    exact full_of_all harrived
  have hsynced : ∀ j < f.clientsPerMachine, 3 ≤ (st.worker m j).rank := by
    intro j hj
    have hspin := hspinning j hj
    cases hpc : st.worker m j with
    | arriving | syncing => rw [hpc] at hspin; exact hspin.elim
    | awaitingReady => rw [hpc] at hspin; exact absurd hspin (Nat.not_lt.mpr hallReady)
    | _ => decide
  have hfinished : ∀ j < f.clientsPerMachine, 5 ≤ (st.worker m j).rank := by
    intro j hj
    have hspin := hspinning j hj
    have hstarted := hmachine.synced.mpr (hsynced 0 (Nat.zero_lt_of_lt hj))
    have hpast := hsynced j hj
    cases hpc : st.worker m j with
    | arriving | awaitingReady | syncing => rw [hpc] at hpast; exact absurd hpast (by decide)
    | awaitingStart => rw [hpc, Spinning, hstarted] at hspin; cases hspin
    | running => rw [hpc] at hspin; exact hspin.elim
    | _ => decide
  have hallDone : f.clientsPerMachine ≤ st.totalClientsDone m := by
    rw [hmachine.doneCount]
    exact full_of_all hfinished
  have hclosed : ∀ j < f.clientsPerMachine, 7 ≤ (st.worker m j).rank := by
    intro j hj
    have hspin := hspinning j hj
    have hpast := hfinished j hj
    cases hpc : st.worker m j with
    | awaitingDone => rw [hpc] at hspin; exact absurd hspin (Nat.not_lt.mpr hallDone)
    | closing => rw [hpc] at hspin; exact hspin.elim
    | awaitingEnd | returned => decide
    | _ => rw [hpc] at hpast; exact absurd hpast (by decide)
  intro j hj
  have hspin := hspinning j hj
  have hpast := hclosed j hj
  have hdone := hmachine.closed.mpr (hclosed 0 (Nat.zero_lt_of_lt hj))
  cases hpc : st.worker m j with
  | awaitingEnd => rw [hpc, Spinning, hdone] at hspin; cases hspin
  | returned => rfl
  | _ => rw [hpc] at hpast; exact absurd hpast (by decide)

/-- A client is between two actions, if it is neither waiting nor stopped. -/
theorem ready_of_quiet (h : RunInvariant f ops st) (hquiet : Quiet f.numClients st.network) {a : ℕ}
    (hpanic : st.network.pc a ≠ .panicked)
    (hwait : ∀ i indices, st.network.pc a ≠ .waiting i indices) :
    st.network.pc a = .ready := by
  have hget := h.not_getting hquiet a
  cases hpc : st.network.pc a with
  | ready => rfl
  | sending i => exact absurd hpc (hquiet.sending a i)
  | waiting i indices => exact absurd hpc (hwait i indices)
  | getting => rw [hpc] at hget; cases hget
  | panicked => exact absurd hpc hpanic

/-- All clients of a machine are between two actions when its first client is. -/
theorem machine_ready (h : RunInvariant f ops st) (hquiet : Quiet f.numClients st.network) {m : ℕ}
    (hready : st.network.pc m = .ready) (j : ℕ) : st.network.pc (f.channelOf m j) = .ready := by
  by_cases hj0 : j = 0
  · rw [hj0, Fleet.channelOf_zero]
    exact hready
  · have hge : f.numClients ≤ f.channelOf m j := by
      have hmul := Nat.le_mul_of_pos_left f.numClients (Nat.pos_of_ne_zero hj0)
      unfold Fleet.channelOf
      omega
    cases h.fleet.sync.others _ hge with
    | inl hpc => exact hpc
    | inr hget => rw [h.not_getting hquiet] at hget; cases hget

/-- **No synchronisation is left waiting**, by induction on its round: the machine behind it is in
none, so it has returned, and that was after its last round. -/
theorem not_waiting (h : RunInvariant f ops st) (hstuck : Stuck (fleetStep f) st)
    (hquiet : Quiet f.numClients st.network) (hpos : 0 < f.clientsPerMachine)
    (hpanic : ∀ m < f.numClients, st.network.pc m ≠ .panicked) (r : ℕ) :
    ∀ a < f.numClients, st.network.round a = r →
      ∀ i indices, st.network.pc a ≠ .waiting i indices := by
  induction r using Nat.strongRecOn with
  | _ r ih =>
    intro a ha hround i indices hpc
    obtain ⟨b, hb, hlt⟩ := h.behind_of_waiting hquiet ha hpc
    have hready := h.ready_of_quiet hquiet (hpanic b hb) (ih _ (hround ▸ hlt) b hb rfl)
    have hreturned := h.returned_of_ready hstuck hb
      (fun j _ => h.machine_ready hquiet hready j) 0 hpos
    have hfirst := h.fleet.firstOk hb hpos
    rw [hreturned] at hfirst
    have hle := (h.fleet.firstOk ha hpos).round_le
    have htwo : st.network.round b = 2 := hfirst.1
    omega

end RunInvariant

/-- A run has come to its end: all clients have returned and have nothing left to do, or a machine
has stopped with "Client sync failed". -/
def Ended (f : Fleet) (st : FleetState) : Prop :=
  (∀ m < f.numClients, ∀ j < f.clientsPerMachine, st.worker m j = .returned ∧
    st.network.script (f.channelOf m j) = []) ∨
  ∃ m < f.numClients, st.network.pc m = .panicked

/-- **There is no deadlock.** A run stops only at its end. -/
theorem RunInvariant.ended (h : RunInvariant f ops st) (hstuck : Stuck (fleetStep f) st) :
    Ended f st := by
  by_cases hpanic : ∃ m < f.numClients, st.network.pc m = .panicked
  · exact Or.inr hpanic
  · have hnopanic : ∀ m < f.numClients, st.network.pc m ≠ .panicked :=
      fun m hm hpc => hpanic ⟨m, hm, hpc⟩
    have hquiet : Quiet f.numClients st.network := by
      refine quiet_of_stuck fun l hl => ?_
      have hnone := hstuck (.network l)
      rwa [fleetStep, hl, if_neg Bool.false_ne_true, Option.map_eq_none_iff] at hnone
    refine Or.inl fun m hm j hj => ?_
    have hwait := h.not_waiting hstuck hquiet (Nat.zero_lt_of_lt hj) hnopanic _ m hm rfl
    have hready := h.ready_of_quiet hquiet (hnopanic m hm) hwait
    have hreturned := h.returned_of_ready hstuck hm
      (fun i _ => h.machine_ready hquiet hready i) j hj
    refine ⟨hreturned, ?_⟩
    have hclient := h.fleet.clients m hm j hj
    unfold ClientOk at hclient
    by_cases hj0 : j = 0
    · subst hj0
      rw [if_pos rfl, hreturned] at hclient
      rw [Fleet.channelOf_zero]
      exact hclient.2.2
    · rw [if_neg hj0, hreturned] at hclient
      exact hclient.2

end TwigKV.ClientSync
