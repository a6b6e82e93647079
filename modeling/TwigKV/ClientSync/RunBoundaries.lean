import TwigKV.ClientSync.MachineThreads
import TwigKV.ClientSync.SyncUnderTraffic

/-! # The start and the end of a run

The spin loops of a machine and the synchronisations of the machines make two barriers for the
clients of all machines together. No request is sent before every client of every machine has come
to the start (`operations_start_together`), and no client returns before every client of every
machine has finished its operations (`operations_end_together`). Both hold in every run, also in
those where gets and synchronisations take each other's messages: a synchronisation that has lost a
message does not return. -/

namespace TwigKV.ClientSync

/-! ## Threads and their clients -/

/-- The network moves a client: not at all, out of a get, or inside a synchronisation. -/
inductive ClientProgress (pc : ClientPc) : ClientPc → Prop
  /-- The client stays where it is. -/
  | stay : ClientProgress pc pc
  /-- A get returns. -/
  | returned (hget : pc.isGetting = true) : ClientProgress pc .ready
  /-- A synchronisation goes on or returns. -/
  | synced {pc' : ClientPc} (hpc : pc ≠ .ready) (hget : pc.isGetting = false)
      (hget' : pc'.isGetting = false) : ClientProgress pc pc'

/-- A client that the network moves inside a call. -/
theorem clientProgress_update {pcs : ℕ → ClientPc} {a : ℕ} {pc : ClientPc}
    (h : ClientProgress (pcs a) pc) (b : ℕ) :
    ClientProgress (pcs b) (Function.update pcs a pc b) := by
  by_cases hba : b = a
  · subst hba
    rw [Function.update_self]
    exact h
  · rw [Function.update_of_ne hba]
    exact .stay

/-- Inside calls the network starts no action. -/
theorem network_frame {N : ℕ} {st st' : NetworkState} {l : NetworkLabel} (hl : l.isStart = false)
    (hs : networkStep N st l = some st') :
    st'.script = st.script ∧ st'.round = st.round ∧ st'.nextRequest = st.nextRequest ∧
      ∀ b, ClientProgress (st.pc b) (st'.pc b) := by
  cases networkMove_of_step hs with
  | beginSync | beginGet => cases hl
  | skipSelf hpc | sendSyncTo hpc | beginWait hpc | takeSync hpc | failSync hpc | endSync hpc =>
    refine ⟨rfl, rfl, rfl, clientProgress_update (.synced ?_ ?_ rfl)⟩
    · rw [hpc]; exact ClientPc.noConfusion
    · rw [hpc]; rfl
  | finishGet hpc =>
    exact ⟨rfl, rfl, rfl, clientProgress_update (.returned (by rw [hpc]; rfl))⟩
  | deliverSync | deliverResponse | serverReceive | answer => exact ⟨rfl, rfl, rfl, fun _ => .stay⟩

/-- A machine's first client, from where its thread stands. -/
def FirstOk (worker : WorkerPc) (pc : ClientPc) (script : List ClientAction) (round : ℕ) : Prop :=
  match worker with
  | .arriving | .awaitingReady =>
      round = 0 ∧ pc = .ready ∧ ∃ ops, script = .sync :: (getActions ops ++ [.sync])
  | .syncing => round = 1 ∧ pc.isGetting = false ∧ ∃ ops, script = getActions ops ++ [.sync]
  | .awaitingStart => round = 1 ∧ pc = .ready ∧ ∃ ops, script = getActions ops ++ [.sync]
  | .running => round = 1 ∧ (pc = .ready ∨ pc.isGetting = true) ∧
      ∃ ops, script = getActions ops ++ [.sync]
  | .awaitingDone => round = 1 ∧ pc = .ready ∧ script = [.sync]
  | .closing => round = 2 ∧ pc.isGetting = false ∧ script = []
  | .awaitingEnd | .returned => round = 2 ∧ pc = .ready ∧ script = []

/-- A further client, from where its thread stands. -/
def FurtherOk (worker : WorkerPc) (pc : ClientPc) (script : List ClientAction) : Prop :=
  match worker with
  | .arriving | .awaitingReady | .awaitingStart => pc = .ready ∧ ∃ ops, script = getActions ops
  | .running => (pc = .ready ∨ pc.isGetting = true) ∧ ∃ ops, script = getActions ops
  | .awaitingDone | .awaitingEnd | .returned => pc = .ready ∧ script = []
  | .syncing | .closing => False

/-- A client between two actions stays there. -/
theorem ClientProgress.ready {pc pc' : ClientPc} (h : ClientProgress pc pc') (hpc : pc = .ready) :
    pc' = .ready := by
  cases h with
  | stay => exact hpc
  | returned => rfl
  | synced hne => exact absurd hpc hne

/-- A client in a get stays there or returns. -/
theorem ClientProgress.running {pc pc' : ClientPc} (h : ClientProgress pc pc')
    (hpc : pc = .ready ∨ pc.isGetting = true) : pc' = .ready ∨ pc'.isGetting = true := by
  cases h with
  | stay => exact hpc
  | returned => exact Or.inl rfl
  | synced hne hget =>
    cases hpc with
    | inl hready => exact absurd hready hne
    | inr hgetting => rw [hget] at hgetting; cases hgetting

/-- No get starts inside a call. -/
theorem ClientProgress.notGetting {pc pc' : ClientPc} (h : ClientProgress pc pc')
    (hpc : pc.isGetting = false) : pc'.isGetting = false := by
  cases h with
  | stay => exact hpc
  | returned => rfl
  | synced _ _ hget' => exact hget'

/-- The network moves a first client inside a call. -/
theorem FirstOk.progress {worker : WorkerPc} {pc pc' : ClientPc} {script : List ClientAction}
    {round : ℕ} (h : FirstOk worker pc script round) (hpc : ClientProgress pc pc') :
    FirstOk worker pc' script round := by
  cases worker with
  | arriving | awaitingReady | awaitingStart | awaitingDone | awaitingEnd | returned =>
    exact ⟨h.1, hpc.ready h.2.1, h.2.2⟩
  | syncing | closing => exact ⟨h.1, hpc.notGetting h.2.1, h.2.2⟩
  | running => exact ⟨h.1, hpc.running h.2.1, h.2.2⟩

/-- The network moves a further client inside a call. -/
theorem FurtherOk.progress {worker : WorkerPc} {pc pc' : ClientPc} {script : List ClientAction}
    (h : FurtherOk worker pc script) (hpc : ClientProgress pc pc') :
    FurtherOk worker pc' script := by
  cases worker with
  | arriving | awaitingReady | awaitingStart | awaitingDone | awaitingEnd | returned =>
    exact ⟨hpc.ready h.1, h.2⟩
  | running => exact ⟨hpc.running h.1, h.2⟩
  | syncing | closing => exact h

/-- The round a first client is in tells how far its thread has come. -/
theorem FirstOk.rank_of_round {worker : WorkerPc} {pc : ClientPc} {script : List ClientAction}
    {round : ℕ} (h : FirstOk worker pc script round) :
    (1 ≤ round → 2 ≤ worker.rank) ∧ (2 ≤ round → 6 ≤ worker.rank) := by
  cases worker <;> simp only [FirstOk, WorkerPc.rank] at h ⊢ <;> omega

/-- A client of a machine, from where its thread stands. -/
def ClientOk (f : Fleet) (st : FleetState) (m j : ℕ) : Prop :=
  if j = 0 then FirstOk (st.worker m 0) (st.network.pc m) (st.network.script m) (st.network.round m)
  else FurtherOk (st.worker m j) (st.network.pc (f.channelOf m j))
    (st.network.script (f.channelOf m j))

/-- The rounds the machines are in and how far their threads have come. -/
structure RoundsOk (f : Fleet) (st : FleetState) : Prop where
  /-- A machine past its first synchronisation: all machines have entered it. -/
  started : ∀ m < f.numClients, 3 ≤ (st.worker m 0).rank →
    ∀ b < f.numClients, 1 ≤ st.network.round b
  /-- A machine past its last synchronisation: all machines have entered it. -/
  ended : ∀ m < f.numClients, 7 ≤ (st.worker m 0).rank →
    ∀ b < f.numClients, 2 ≤ st.network.round b
  /-- Requests come from machines past their first synchronisation. -/
  requests : 0 < st.network.nextRequest → ∃ m < f.numClients, 3 ≤ (st.worker m 0).rank

/-- The invariant of the client machines. -/
structure FleetInvariant (f : Fleet) (st : FleetState) : Prop where
  /-- The synchronisations on the network. -/
  sync : SyncInvariant f.numClients st.network
  /-- The atomics of every machine. -/
  machines : ∀ m < f.numClients, MachineOk f.clientsPerMachine (st.worker m)
    (st.totalClientsReady m) (st.totalClientsDone m) (st.workloadReady m) (st.workloadDone m)
  /-- The clients of every machine. -/
  clients : ∀ m < f.numClients, ∀ j < f.clientsPerMachine, ClientOk f st m j
  /-- The rounds of the machines. -/
  rounds : RoundsOk f st

/-- The invariant holds before the threads have started. -/
theorem fleetInvariant_initial (f : Fleet) (ops : ℕ → List (String × ℕ)) :
    FleetInvariant f (.initial f ops) := by
  constructor
  case sync =>
    refine syncInvariant_initial ?_
    intro a ha hmem
    rw [clientScript, if_neg (Nat.not_lt.mpr ha)] at hmem
    obtain ⟨op, -, hop⟩ := List.mem_map.mp hmem
    cases hop
  case machines => exact fun _ _ => machineOk_initial _
  case clients =>
    intro m hm j hj
    unfold ClientOk
    split
    · refine ⟨rfl, rfl, ops m, ?_⟩
      show clientScript f.numClients ops m = _
      rw [clientScript, if_pos hm]
    · next hne =>
      refine ⟨rfl, ops (f.channelOf m j), ?_⟩
      have hge : ¬ f.channelOf m j < f.numClients := by
        have hmul := Nat.le_mul_of_pos_left f.numClients (Nat.pos_of_ne_zero hne)
        unfold Fleet.channelOf
        omega
      show clientScript f.numClients ops (f.channelOf m j) = _
      rw [clientScript, if_neg hge]
  case rounds =>
    constructor
    · intro m hm h
      exact absurd h (Nat.not_le.mpr (Nat.succ_pos 2))
    · intro m hm h
      exact absurd h (Nat.not_le.mpr (Nat.succ_pos 6))
    · exact fun h => absurd h (Nat.lt_irrefl 0)

/-! ## Steps -/

/-- Different clients have different numbers. -/
theorem Fleet.channelOf_inj {f : Fleet} {m m' j j' : ℕ} (hm : m < f.numClients)
    (hm' : m' < f.numClients) (h : f.channelOf m j = f.channelOf m' j') : m = m' ∧ j = j' := by
  have hmod : ∀ i k, i < f.numClients → f.channelOf i k % f.numClients = i := by
    intro i k hi
    rw [Fleet.channelOf, Nat.mul_add_mod_of_lt hi]
  have hmm : m = m' := by
    rw [← hmod m j hm, h, hmod m' j' hm']
  subst hmm
  have hmul : j * f.numClients = j' * f.numClients := Nat.add_right_cancel h
  exact ⟨rfl, Nat.eq_of_mul_eq_mul_right (Nat.zero_lt_of_lt hm) hmul⟩

variable {f : Fleet} {st st' : FleetState} {m j : ℕ}

/-- A thread that moves forward has not left the places it has passed. -/
theorem rank_le_update {workers : ℕ → WorkerPc} {pc : WorkerPc}
    (hle : (workers j).rank ≤ pc.rank) (i : ℕ) :
    (workers i).rank ≤ (Function.update workers j pc i).rank := by
  by_cases hij : i = j
  · subst hij
    rw [Function.update_self]
    exact hle
  · rw [Function.update_of_ne hij]

/-- The thread of one client moves on, with its machine's atomics and its client. -/
theorem FleetInvariant.move {pc : WorkerPc} (hinv : FleetInvariant f st) (hm : m < f.numClients)
    (hworker : st'.worker = update₂ st.worker m j pc) (hle : (st.worker m j).rank ≤ pc.rank)
    (hsync : SyncInvariant f.numClients st'.network)
    (hmachine : MachineOk f.clientsPerMachine (Function.update (st.worker m) j pc)
      (st'.totalClientsReady m) (st'.totalClientsDone m) (st'.workloadReady m) (st'.workloadDone m))
    (hatomics : ∀ i, i ≠ m → st'.totalClientsReady i = st.totalClientsReady i ∧
      st'.totalClientsDone i = st.totalClientsDone i ∧
      st'.workloadReady i = st.workloadReady i ∧ st'.workloadDone i = st.workloadDone i)
    (hclient : ClientOk f st' m j)
    (hnetwork : ∀ a, a ≠ f.channelOf m j → st'.network.pc a = st.network.pc a ∧
      st'.network.script a = st.network.script a ∧ st'.network.round a = st.network.round a)
    (hround : st.network.round (f.channelOf m j) ≤ st'.network.round (f.channelOf m j))
    (hstarted : j = 0 → 3 ≤ pc.rank → 3 ≤ (st.worker m 0).rank ∨
      ∀ b < f.numClients, 1 ≤ st.network.round b)
    (hended : j = 0 → 7 ≤ pc.rank → 7 ≤ (st.worker m 0).rank ∨
      ∀ b < f.numClients, 2 ≤ st.network.round b)
    (hrequests : 0 < st'.network.nextRequest →
      0 < st.network.nextRequest ∨ 3 ≤ (st.worker m 0).rank) : FleetInvariant f st' := by
  have hmono : ∀ b, st.network.round b ≤ st'.network.round b := by
    intro b
    by_cases hb : b = f.channelOf m j
    · rw [hb]; exact hround
    · rw [(hnetwork b hb).2.2]
  have hrow : st'.worker m = Function.update (st.worker m) j pc := by
    rw [hworker, update₂, Function.update_self]
  have hother : ∀ i k, i ≠ m ∨ k ≠ j → st'.worker i k = st.worker i k := by
    intro i k hik
    rw [hworker, update₂_of_ne _ _ hik]
  -- the first client of a machine has not moved back
  have hfirst : ∀ i, (st.worker i 0).rank ≤ (st'.worker i 0).rank := by
    intro i
    by_cases him : i = m
    · rw [him, hrow]
      exact rank_le_update hle 0
    · rw [hother i 0 (Or.inl him)]
  have hpast : ∀ k r, (j = 0 → k ≤ pc.rank → k ≤ (st.worker m 0).rank ∨
      ∀ b < f.numClients, r ≤ st.network.round b) →
      (∀ i < f.numClients, k ≤ (st.worker i 0).rank →
        ∀ b < f.numClients, r ≤ st.network.round b) →
      ∀ i < f.numClients, k ≤ (st'.worker i 0).rank →
        ∀ b < f.numClients, r ≤ st'.network.round b := by
    intro k r hnew hold i hi hrank b hb
    refine Nat.le_trans ?_ (hmono b)
    by_cases hi0 : i = m ∧ 0 = j
    · obtain ⟨rfl, rfl⟩ := hi0
      rw [hrow, Function.update_self] at hrank
      cases hnew rfl hrank with
      | inl hbefore => exact hold i hi hbefore b hb
      | inr hall => exact hall b hb
    · have hik : i ≠ m ∨ 0 ≠ j := by
        by_cases him : i = m
        · exact Or.inr fun h0 => hi0 ⟨him, h0⟩
        · exact Or.inl him
      rw [hother i 0 hik] at hrank
      exact hold i hi hrank b hb
  constructor
  case sync => exact hsync
  case machines =>
    intro i hi
    by_cases him : i = m
    · rw [him, hrow]
      exact hmachine
    · obtain ⟨h1, h2, h3, h4⟩ := hatomics i him
      have hsame : st'.worker i = st.worker i := by
        funext k
        exact hother i k (Or.inl him)
      rw [hsame, h1, h2, h3, h4]
      exact hinv.machines i hi
  case clients =>
    intro i hi k hk
    by_cases hik : i = m ∧ k = j
    · rw [hik.1, hik.2]
      exact hclient
    · have hne : i ≠ m ∨ k ≠ j := by
        by_cases him : i = m
        · exact Or.inr fun hkj => hik ⟨him, hkj⟩
        · exact Or.inl him
      have ha : f.channelOf i k ≠ f.channelOf m j := fun h => hik (Fleet.channelOf_inj hi hm h)
      obtain ⟨hpc, hscript, hrnd⟩ := hnetwork _ ha
      have hold := hinv.clients i hi k hk
      unfold ClientOk at hold ⊢
      by_cases hk0 : k = 0
      · subst hk0
        rw [Fleet.channelOf_zero] at hpc hscript hrnd
        rw [if_pos rfl] at hold ⊢
        rw [hother i 0 hne, hpc, hscript, hrnd]
        exact hold
      · rw [if_neg hk0] at hold ⊢
        rw [hother i k hne, hpc, hscript]
        exact hold
  case rounds =>
    refine ⟨hpast 3 1 hstarted hinv.rounds.started, hpast 7 2 hended hinv.rounds.ended, ?_⟩
    intro hpos
    cases hrequests hpos with
    | inl hold =>
      obtain ⟨i, hi, hrank⟩ := hinv.rounds.requests hold
      exact ⟨i, hi, Nat.le_trans hrank (hfirst i)⟩
    | inr hrank => exact ⟨m, hm, Nat.le_trans hrank (hfirst m)⟩

/-- The network moves clients inside their calls. -/
theorem FleetInvariant.network {l : NetworkLabel} {network : NetworkState}
    (hinv : FleetInvariant f st) (hl : l.isStart = false)
    (hs : networkStep f.numClients st.network l = some network) :
    FleetInvariant f { st with network := network } := by
  obtain ⟨hscript, hround, hnext, hpc⟩ := network_frame hl hs
  constructor
  case sync => exact hinv.sync.step hs
  case machines => exact hinv.machines
  case clients =>
    intro i hi k hk
    have hold := hinv.clients i hi k hk
    unfold ClientOk at hold ⊢
    simp only [hscript, hround]
    split
    · next hk0 =>
      rw [if_pos hk0] at hold
      exact hold.progress (hpc i)
    · next hk0 =>
      rw [if_neg hk0] at hold
      exact hold.progress (hpc _)
  case rounds =>
    refine ⟨?_, ?_, ?_⟩
    · simp only [hround]
      exact hinv.rounds.started
    · simp only [hround]
      exact hinv.rounds.ended
    · simp only [hnext]
      exact hinv.rounds.requests

/-- A thread moves on while its client stays where it is. -/
theorem FleetInvariant.goto {pc : WorkerPc} (hinv : FleetInvariant f st) (hm : m < f.numClients)
    (hj : j < f.clientsPerMachine) (hworker : st'.worker = update₂ st.worker m j pc)
    (hnetwork : st'.network = st.network) (hle : (st.worker m j).rank ≤ pc.rank)
    (hmachine : MachineOk f.clientsPerMachine (Function.update (st.worker m) j pc)
      (st'.totalClientsReady m) (st'.totalClientsDone m) (st'.workloadReady m) (st'.workloadDone m))
    (hatomics : ∀ i, i ≠ m → st'.totalClientsReady i = st.totalClientsReady i ∧
      st'.totalClientsDone i = st.totalClientsDone i ∧
      st'.workloadReady i = st.workloadReady i ∧ st'.workloadDone i = st.workloadDone i)
    (hfirst : j = 0 → FirstOk (st.worker m 0) (st.network.pc m) (st.network.script m)
        (st.network.round m) →
      FirstOk pc (st.network.pc m) (st.network.script m) (st.network.round m))
    (hfurther : FurtherOk (st.worker m j) (st.network.pc (f.channelOf m j))
        (st.network.script (f.channelOf m j)) →
      FurtherOk pc (st.network.pc (f.channelOf m j)) (st.network.script (f.channelOf m j)))
    (hstarted : j = 0 → 3 ≤ pc.rank → 3 ≤ (st.worker m 0).rank ∨
      ∀ b < f.numClients, 1 ≤ st.network.round b)
    (hended : j = 0 → 7 ≤ pc.rank → 7 ≤ (st.worker m 0).rank ∨
      ∀ b < f.numClients, 2 ≤ st.network.round b) : FleetInvariant f st' := by
  refine hinv.move hm hworker hle (hnetwork ▸ hinv.sync) hmachine hatomics ?_ ?_ ?_ hstarted hended
    ?_
  · have hold := hinv.clients m hm j hj
    unfold ClientOk at hold ⊢
    by_cases hj0 : j = 0
    · subst hj0
      rw [if_pos rfl] at hold ⊢
      rw [hworker, update₂_self, hnetwork]
      exact hfirst rfl hold
    · rw [if_neg hj0] at hold ⊢
      rw [hworker, update₂_self, hnetwork]
      exact hfurther hold
  · intro a _
    rw [hnetwork]
    exact ⟨rfl, rfl, rfl⟩
  · rw [hnetwork]
  · intro hpos
    rw [hnetwork] at hpos
    exact Or.inl hpos

/-- A client in a synchronisation is a machine's first client. -/
theorem FleetInvariant.first_of_syncing (hinv : FleetInvariant f st) (hm : m < f.numClients)
    (hj : j < f.clientsPerMachine) (hpc : st.worker m j = .syncing ∨ st.worker m j = .closing) :
    j = 0 := by
  have hold := hinv.clients m hm j hj
  unfold ClientOk at hold
  split at hold
  · next hj0 => exact hj0
  · cases hpc with
    | inl hsyncing => rw [hsyncing] at hold; exact hold.elim
    | inr hclosing => rw [hclosing] at hold; exact hold.elim

/-- The first client of a machine. -/
theorem FleetInvariant.firstOk (hinv : FleetInvariant f st) (hm : m < f.numClients)
    (hj : 0 < f.clientsPerMachine) :
    FirstOk (st.worker m 0) (st.network.pc m) (st.network.script m) (st.network.round m) := by
  have hold := hinv.clients m hm 0 hj
  unfold ClientOk at hold
  rwa [if_pos rfl] at hold

/-- A first client whose synchronisation has returned: all machines have entered the round. -/
theorem FleetInvariant.rounds_of_returned (hinv : FleetInvariant f st) (hm : m < f.numClients)
    (hclient : st.network.pc m = .ready) :
    ∀ b < f.numClients, st.network.round m ≤ st.network.round b :=
  fun _ hb => hinv.sync.round_le hm (Or.inl hclient) hb

/-- The first client of a machine starts a synchronisation. -/
theorem FleetInvariant.beginSync {rest : List ClientAction} {pc : WorkerPc}
    (hinv : FleetInvariant f st) (hm : m < f.numClients) (hle : (st.worker m 0).rank ≤ pc.rank)
    (hmachine : MachineOk f.clientsPerMachine (Function.update (st.worker m) 0 pc)
      (st.totalClientsReady m) (st.totalClientsDone m) (st.workloadReady m) (st.workloadDone m))
    (hclient : st.network.pc m = .ready) (hscript : st.network.script m = .sync :: rest)
    (hfirst : FirstOk pc (.sending 0) rest (st.network.round m + 1))
    (hstarted : 3 ≤ pc.rank → 3 ≤ (st.worker m 0).rank) (hended : ¬ 7 ≤ pc.rank) :
    FleetInvariant f { st.goto m 0 pc with network := beginSync st.network m rest } := by
  have hsync : SyncInvariant f.numClients (ClientSync.beginSync st.network m rest) :=
    hinv.sync.beginSync hclient hscript
  refine hinv.move hm rfl hle hsync hmachine (fun _ _ => ⟨rfl, rfl, rfl, rfl⟩) ?_ ?_ ?_
    (fun _ h => Or.inl (hstarted h)) (fun _ h => absurd h hended) (fun h => Or.inl h)
  · unfold ClientOk
    rw [if_pos rfl]
    simp only [FleetState.goto, ClientSync.beginSync, update₂_self, Function.update_self]
    exact hfirst
  · intro a ha
    rw [Fleet.channelOf_zero] at ha
    simp only [ClientSync.beginSync, Function.update_of_ne ha, and_self]
  · rw [Fleet.channelOf_zero]
    show _ ≤ Function.update st.network.round m (st.network.round m + 1) m
    rw [Function.update_self]
    exact Nat.le_succ _

/-- A client issues an operation. -/
theorem FleetInvariant.issue {server : ℕ} {key : String} {rest : List ClientAction}
    (hinv : FleetInvariant f st) (hm : m < f.numClients) (hj : j < f.clientsPerMachine)
    (hpc : st.worker m j = .running) (hclient : st.network.pc (f.channelOf m j) = .ready)
    (hscript : st.network.script (f.channelOf m j) = .get key server :: rest) :
    FleetInvariant f
      { st with network := beginGet st.network (f.channelOf m j) key server rest } := by
  have hsame : st.worker = update₂ st.worker m j .running := by
    funext i k
    rw [update₂_apply]
    split
    · next hik => rw [hik.1, hik.2, hpc]
    · rfl
  have hmachine := hinv.machines m hm
  have hrunning : 4 ≤ (st.worker m j).rank := by rw [hpc]; decide
  refine hinv.move hm hsame (by rw [hpc]) (hinv.sync.beginGet hclient hscript) ?_
    (fun _ _ => ⟨rfl, rfl, rfl, rfl⟩) ?_ ?_ (Nat.le_refl _) ?_ ?_ ?_
  · exact hmachine.move (by rw [hpc]) (by rw [hpc])
      (fun _ => hmachine.allReady j hj (Nat.le_trans (by decide) hrunning))
      (fun _ => hmachine.started j hj hrunning) (fun h => absurd h (by decide))
      (fun h => absurd h (by decide)) (fun hj0 => by rw [← hj0, hpc])
      (fun hj0 => by rw [← hj0, hpc])
  · have hold := hinv.clients m hm j hj
    unfold ClientOk at hold ⊢
    by_cases hj0 : j = 0
    · subst hj0
      rw [if_pos rfl, hpc] at hold
      rw [if_pos rfl, hpc]
      obtain ⟨hround, -, ops, hops⟩ := hold
      rw [Fleet.channelOf_zero] at hscript
      rw [hscript] at hops
      obtain ⟨-, ops', hrest, -⟩ := getActions_eq_get (Or.inr rfl) hops.symm
      simp only [Fleet.channelOf_zero, ClientSync.beginGet, Function.update_self]
      exact ⟨hround, Or.inr rfl, ops', hrest⟩
    · rw [if_neg hj0, hpc] at hold
      rw [if_neg hj0, hpc]
      obtain ⟨-, ops, hops⟩ := hold
      rw [hscript, ← List.append_nil (getActions ops)] at hops
      obtain ⟨-, ops', hrest, -⟩ := getActions_eq_get (Or.inl rfl) hops.symm
      rw [List.append_nil] at hrest
      simp only [ClientSync.beginGet, Function.update_self]
      exact ⟨Or.inr rfl, ops', hrest⟩
  · intro a ha
    simp only [ClientSync.beginGet, Function.update_of_ne ha, and_self]
  · intro hj0 _
    subst hj0
    exact Or.inl (Nat.le_trans (by decide) hrunning)
  · exact fun _ h => absurd h (by decide)
  · exact fun _ => Or.inr (hmachine.synced.mp (hmachine.started j hj hrunning))

/-- A thread counts itself in. -/
theorem FleetInvariant.arrive (hinv : FleetInvariant f st) (hm : m < f.numClients)
    (hj : j < f.clientsPerMachine) (hpc : st.worker m j = .arriving) :
    FleetInvariant f (arrive st m j) := by
  refine @FleetInvariant.goto f st _ m j .awaitingReady hinv hm hj rfl rfl (by rw [hpc]; decide)
    ?_ ?_ ?_ ?_ (fun _ h => absurd h (by decide)) (fun _ h => absurd h (by decide))
  · show MachineOk _ _ (Function.update st.totalClientsReady m _ m) _ _ _
    rw [Function.update_self]
    exact (hinv.machines m hm).arrive hj hpc
  · intro i hi
    exact ⟨Function.update_of_ne hi _ _, rfl, rfl, rfl⟩
  · intro hj0 h
    subst hj0
    rw [hpc] at h
    exact h
  · intro h
    rw [hpc] at h
    exact h

/-- A client has finished its operations. -/
theorem FleetInvariant.finishOperations (hinv : FleetInvariant f st) (hm : m < f.numClients)
    (hj : j < f.clientsPerMachine) (hpc : st.worker m j = .running)
    (hclient : st.network.pc (f.channelOf m j) = .ready)
    (hscript : ∀ key server rest, st.network.script (f.channelOf m j) ≠ .get key server :: rest) :
    FleetInvariant f (finishOperations st m j) := by
  have hnone : ∀ ops tail, st.network.script (f.channelOf m j) = getActions ops ++ tail →
      ops = [] := by
    intro ops tail hops
    cases ops with
    | nil => rfl
    | cons op ops => exact absurd hops (hscript op.1 op.2 _)
  refine @FleetInvariant.goto f st _ m j .awaitingDone hinv hm hj rfl rfl (by rw [hpc]; decide)
    ?_ ?_ ?_ ?_ ?_ (fun _ h => absurd h (by decide))
  · show MachineOk _ _ _ (Function.update st.totalClientsDone m _ m) _ _
    rw [Function.update_self]
    exact (hinv.machines m hm).finishOperations hj hpc
  · intro i hi
    exact ⟨rfl, Function.update_of_ne hi _ _, rfl, rfl⟩
  · intro hj0 h
    subst hj0
    rw [Fleet.channelOf_zero] at hclient hnone
    rw [hpc] at h
    obtain ⟨hround, -, ops, hops⟩ := h
    rw [hnone ops _ hops] at hops
    exact ⟨hround, hclient, hops⟩
  · intro h
    rw [hpc] at h
    obtain ⟨-, ops, hops⟩ := h
    rw [hnone ops [] (by rw [List.append_nil]; exact hops)] at hops
    exact ⟨hclient, hops⟩
  · intro hj0 _
    subst hj0
    rw [hpc]
    exact Or.inl (by decide)

/-- The first client reports that the machines may start. -/
theorem FleetInvariant.publishReady (hinv : FleetInvariant f st) (hm : m < f.numClients)
    (hj : j < f.clientsPerMachine) (hpc : st.worker m j = .syncing)
    (hclient : st.network.pc (f.channelOf m j) = .ready) :
    FleetInvariant f (publishReady st m j) := by
  have hj0 := hinv.first_of_syncing hm hj (Or.inl hpc)
  subst hj0
  rw [Fleet.channelOf_zero] at hclient
  have hok := hinv.firstOk hm hj
  rw [hpc] at hok
  have hrounds := hinv.rounds_of_returned hm hclient
  rw [hok.1] at hrounds
  have hmachine := hinv.machines m hm
  refine @FleetInvariant.goto f st _ m 0 .awaitingStart hinv hm hj rfl rfl (by rw [hpc]; decide)
    ?_ ?_ ?_ ?_ (fun _ _ => Or.inr hrounds) (fun _ h => absurd h (by decide))
  · show MachineOk _ _ _ _ (Function.update st.workloadReady m true m) _
    rw [Function.update_self]
    exact hmachine.publishReady hj hpc
  · intro i hi
    exact ⟨rfl, rfl, Function.update_of_ne hi _ _, rfl⟩
  · intro _ h
    rw [hpc] at h
    exact ⟨h.1, hclient, h.2.2⟩
  · intro h
    rw [hpc] at h
    exact h.elim

/-- The first client reports that the machines may end. -/
theorem FleetInvariant.publishDone (hinv : FleetInvariant f st) (hm : m < f.numClients)
    (hj : j < f.clientsPerMachine) (hpc : st.worker m j = .closing)
    (hclient : st.network.pc (f.channelOf m j) = .ready) :
    FleetInvariant f (publishDone st m j) := by
  have hj0 := hinv.first_of_syncing hm hj (Or.inr hpc)
  subst hj0
  rw [Fleet.channelOf_zero] at hclient
  have hok := hinv.firstOk hm hj
  rw [hpc] at hok
  have hrounds := hinv.rounds_of_returned hm hclient
  rw [hok.1] at hrounds
  have hmachine := hinv.machines m hm
  refine @FleetInvariant.goto f st _ m 0 .awaitingEnd hinv hm hj rfl rfl (by rw [hpc]; decide)
    ?_ ?_ ?_ ?_ ?_ (fun _ _ => Or.inr hrounds)
  · show MachineOk _ _ _ _ _ (Function.update st.workloadDone m true m)
    rw [Function.update_self]
    exact hmachine.publishDone hj hpc
  · intro i hi
    exact ⟨rfl, rfl, rfl, Function.update_of_ne hi _ _⟩
  · intro _ h
    rw [hpc] at h
    exact ⟨h.1, hclient, h.2.2⟩
  · intro h
    rw [hpc] at h
    exact h.elim
  · intro _ _
    rw [hpc]
    exact Or.inl (by decide)

/-- Every step keeps the invariant. -/
theorem FleetInvariant.step {l : FleetLabel} (hinv : FleetInvariant f st)
    (hs : fleetStep f st l = some st') : FleetInvariant f st' := by
  cases fleetMove_of_step hs with
  | arrive hm hj hpc => exact hinv.arrive hm hj hpc
  | @beginSyncing m rest hm hj hpc hready hclient hscript =>
    have hok := hinv.firstOk hm hj
    rw [hpc] at hok
    obtain ⟨hround, -, ops, hops⟩ := hok
    rw [hscript, List.cons.injEq] at hops
    refine @FleetInvariant.beginSync f st m rest .syncing hinv hm (by rw [hpc]; decide) ?_ hclient
      hscript ⟨by rw [hround], rfl, ops, hops.2⟩ (fun h => absurd h (by decide)) (by decide)
    exact (hinv.machines m hm).move (by rw [hpc]; decide) (by rw [hpc]; decide)
      (fun _ => hready) (fun h => absurd h (by decide)) (fun h => absurd h (by decide))
      (fun h => absurd h (by decide)) (fun _ => by rw [hpc]; decide) (fun _ => by rw [hpc]; decide)
  | @skipSyncing m j hm hj hfirst hpc hready =>
    refine @FleetInvariant.goto f st _ m j .awaitingStart hinv hm hj rfl rfl (by rw [hpc]; decide)
      ?_ (fun _ _ => ⟨rfl, rfl, rfl, rfl⟩) (fun hj0 => absurd hj0 hfirst) ?_
      (fun hj0 => absurd hj0 hfirst) (fun hj0 => absurd hj0 hfirst)
    · exact (hinv.machines m hm).move (by rw [hpc]; decide) (by rw [hpc]; decide)
        (fun _ => hready) (fun h => absurd h (by decide)) (fun h => absurd h (by decide))
        (fun h => absurd h (by decide)) (fun hj0 => absurd hj0 hfirst)
        (fun hj0 => absurd hj0 hfirst)
    · intro h
      rw [hpc] at h
      exact h
  | publishReady hm hj hpc hclient => exact hinv.publishReady hm hj hpc hclient
  | @beginRun m j hm hj hpc hready =>
    have hmachine := hinv.machines m hm
    refine @FleetInvariant.goto f st _ m j .running hinv hm hj rfl rfl (by rw [hpc]; decide) ?_
      (fun _ _ => ⟨rfl, rfl, rfl, rfl⟩) ?_ ?_ ?_ (fun _ h => absurd h (by decide))
    · exact hmachine.move (by rw [hpc]; decide) (by rw [hpc]; decide)
        (fun _ => hmachine.allReady j hj (by rw [hpc]; decide)) (fun _ => hready)
        (fun h => absurd h (by decide)) (fun h => absurd h (by decide))
        (fun hj0 => by rw [← hj0, hpc]; decide) (fun hj0 => by rw [← hj0, hpc]; decide)
    · intro hj0 h
      subst hj0
      rw [hpc] at h
      exact ⟨h.1, Or.inl h.2.1, h.2.2⟩
    · intro h
      rw [hpc] at h
      exact ⟨Or.inl h.1, h.2⟩
    · intro hj0 _
      subst hj0
      rw [hpc]
      exact Or.inl (by decide)
  | issue hm hj hpc hclient hscript => exact hinv.issue hm hj hpc hclient hscript
  | finishOperations hm hj hpc hclient hscript =>
    exact hinv.finishOperations hm hj hpc hclient hscript
  | @beginClosing m rest hm hj hpc hdone hclient hscript =>
    have hok := hinv.firstOk hm hj
    rw [hpc] at hok
    obtain ⟨hround, -, hops⟩ := hok
    rw [hscript, List.cons.injEq] at hops
    have hmachine := hinv.machines m hm
    refine @FleetInvariant.beginSync f st m rest .closing hinv hm (by rw [hpc]; decide) ?_ hclient
      hscript ⟨by rw [hround], rfl, hops.2⟩ (fun _ => by rw [hpc]; decide) (by decide)
    exact hmachine.move (by rw [hpc]; decide) (by rw [hpc]; decide)
      (fun _ => hmachine.allReady 0 hj (by rw [hpc]; decide))
      (fun _ => hmachine.started 0 hj (by rw [hpc]; decide)) (fun _ => hdone)
      (fun h => absurd h (by decide)) (fun _ => by rw [hpc]; decide) (fun _ => by rw [hpc]; decide)
  | @skipClosing m j hm hj hfirst hpc hdone =>
    have hmachine := hinv.machines m hm
    refine @FleetInvariant.goto f st _ m j .awaitingEnd hinv hm hj rfl rfl (by rw [hpc]; decide)
      ?_ (fun _ _ => ⟨rfl, rfl, rfl, rfl⟩) (fun hj0 => absurd hj0 hfirst) ?_
      (fun hj0 => absurd hj0 hfirst) (fun hj0 => absurd hj0 hfirst)
    · exact hmachine.move (by rw [hpc]; decide) (by rw [hpc]; decide)
        (fun _ => hmachine.allReady j hj (by rw [hpc]; decide))
        (fun _ => hmachine.started j hj (by rw [hpc]; decide)) (fun _ => hdone)
        (fun h => absurd h (by decide)) (fun hj0 => absurd hj0 hfirst)
        (fun hj0 => absurd hj0 hfirst)
    · intro h
      rw [hpc] at h
      exact h
  | publishDone hm hj hpc hclient => exact hinv.publishDone hm hj hpc hclient
  | @finish m j hm hj hpc hdone =>
    have hmachine := hinv.machines m hm
    refine @FleetInvariant.goto f st _ m j .returned hinv hm hj rfl rfl (by rw [hpc]; decide) ?_
      (fun _ _ => ⟨rfl, rfl, rfl, rfl⟩) ?_ ?_ ?_ ?_
    · exact hmachine.move (by rw [hpc]; decide) (by rw [hpc]; decide)
        (fun _ => hmachine.allReady j hj (by rw [hpc]; decide))
        (fun _ => hmachine.started j hj (by rw [hpc]; decide))
        (fun _ => hmachine.allDone j hj (by rw [hpc]; decide)) (fun _ => hdone)
        (fun hj0 => by rw [← hj0, hpc]; decide) (fun hj0 => by rw [← hj0, hpc]; decide)
    · intro hj0 h
      subst hj0
      rw [hpc] at h
      exact h
    · intro h
      rw [hpc] at h
      exact h
    · intro hj0 _
      subst hj0
      rw [hpc]
      exact Or.inl (by decide)
    · intro hj0 _
      subst hj0
      rw [hpc]
      exact Or.inl (by decide)
  | network hl hstep => exact hinv.network hl hstep

/-- Every reachable state satisfies the invariant. -/
theorem fleetInvariant_of_reachable {ops : ℕ → List (String × ℕ)}
    (h : Reachable (fleetStep f) (.initial f ops) st) : FleetInvariant f st :=
  h.invariant (fleetInvariant_initial f ops) fun _ _ _ _ hinv _ hs => hinv.step hs

/-! ## The barriers -/

/-- A client is in no get and has none left to issue. -/
def OperationsDone (f : Fleet) (st : FleetState) (m j : ℕ) : Prop :=
  (st.network.pc (f.channelOf m j)).isGetting = false ∧
    ∀ action ∈ st.network.script (f.channelOf m j), action = .sync

/-- A further client that has passed the count of finished clients. -/
theorem FurtherOk.done {worker : WorkerPc} {pc : ClientPc} {script : List ClientAction}
    (h : FurtherOk worker pc script) (hrank : 5 ≤ worker.rank) : pc = .ready ∧ script = [] := by
  cases worker with
  | awaitingDone | awaitingEnd | returned => exact h
  | closing => exact h.elim
  | arriving | awaitingReady | syncing | awaitingStart | running => exact absurd hrank (by decide)

/-- A first client that has passed the count of finished clients. -/
theorem FirstOk.done {worker : WorkerPc} {pc : ClientPc} {script : List ClientAction} {round : ℕ}
    (h : FirstOk worker pc script round) (hrank : 5 ≤ worker.rank) :
    pc.isGetting = false ∧ ∀ action ∈ script, action = .sync := by
  cases worker with
  | awaitingDone =>
    obtain ⟨-, rfl, rfl⟩ := h
    exact ⟨rfl, fun action haction => List.mem_singleton.mp haction⟩
  | closing =>
    obtain ⟨-, hget, rfl⟩ := h
    exact ⟨hget, fun action haction => absurd haction List.not_mem_nil⟩
  | awaitingEnd | returned =>
    obtain ⟨-, rfl, rfl⟩ := h
    exact ⟨rfl, fun action haction => absurd haction List.not_mem_nil⟩
  | arriving | awaitingReady | syncing | awaitingStart | running => exact absurd hrank (by decide)

/-- A client counted as finished has no operations left. -/
theorem FleetInvariant.operationsDone (hinv : FleetInvariant f st) (hm : m < f.numClients)
    (hj : j < f.clientsPerMachine) (hrank : 5 ≤ (st.worker m j).rank) :
    OperationsDone f st m j := by
  have hok := hinv.clients m hm j hj
  unfold ClientOk at hok
  unfold OperationsDone
  by_cases hj0 : j = 0
  · subst hj0
    rw [if_pos rfl] at hok
    rw [Fleet.channelOf_zero]
    exact hok.done hrank
  · rw [if_neg hj0] at hok
    obtain ⟨hpc, hscript⟩ := hok.done hrank
    rw [hpc, hscript]
    exact ⟨rfl, fun action haction => absurd haction List.not_mem_nil⟩

/-- **The start of a run.** In every run, once any client has sent a request, every client of every
machine has come to the start. -/
theorem operations_start_together {ops : ℕ → List (String × ℕ)}
    (h : Reachable (fleetStep f) (.initial f ops) st) (hsent : 0 < st.network.nextRequest) :
    ∀ b < f.numClients, ∀ i < f.clientsPerMachine, st.worker b i ≠ .arriving := by
  have hinv := fleetInvariant_of_reachable h
  obtain ⟨m, hm, hrank⟩ := hinv.rounds.requests hsent
  intro b hb i hi hpc
  have hpos : 0 < f.clientsPerMachine := Nat.zero_lt_of_lt hi
  -- the machine has entered the first synchronisation, so its first client has passed the loop
  have hround := hinv.rounds.started m hm hrank b hb
  have hfirst := (hinv.firstOk hb hpos).rank_of_round.1 hround
  have hmachine := hinv.machines b hb
  have hfull := hmachine.allReady 0 hpos hfirst
  rw [hmachine.readyCount] at hfull
  have harrived := all_of_full hfull hi
  rw [hpc] at harrived
  exact absurd harrived (by decide)

/-- Two machines with one client each synchronise; the first one sends its request. -/
def startingRun : List FleetLabel :=
  [.worker 0 0, .worker 1 0, .worker 0 0, .worker 1 0,
    .network (.sendSync 0), .network (.sendSync 0), .network (.sendSync 0),
    .network (.sendSync 1), .network (.sendSync 1), .network (.sendSync 1),
    .network (.deliverSync 1 0), .network (.deliverSync 0 1), .network (.receive 0),
    .network (.receive 1), .network (.finishSync 0), .network (.finishSync 1),
    .worker 0 0, .worker 0 0, .worker 0 0]

/-- The operations of that run: one get of the first client. -/
def singleGet (a : ℕ) : List (String × ℕ) := if a = 0 then [("1", 3)] else []

/-- The start of a run with a request. -/
theorem operations_start_together_run : ∃ st,
    Reachable (fleetStep ⟨2, 1⟩) (.initial ⟨2, 1⟩ singleGet) st ∧ 0 < st.network.nextRequest ∧
      ∀ b < 2, ∀ i < 1, st.worker b i ≠ .arriving := by
  have hrun : ∃ st, runLabels (fleetStep ⟨2, 1⟩) (.initial ⟨2, 1⟩ singleGet) startingRun = some st ∧
      st.network.nextRequest = 1 := ⟨_, rfl, rfl⟩
  obtain ⟨st, hst, hnext⟩ := hrun
  have hreach := reachable_of_runLabels startingRun hst
  have hsent : 0 < st.network.nextRequest := by rw [hnext]; exact Nat.one_pos
  exact ⟨st, hreach, hsent, operations_start_together hreach hsent⟩

/-- **The end of a run.** In every run, once any client has returned, every client of every machine
has issued all its operations and is in none. -/
theorem operations_end_together {ops : ℕ → List (String × ℕ)}
    (h : Reachable (fleetStep f) (.initial f ops) st) (hm : m < f.numClients)
    (hj : j < f.clientsPerMachine) (hreturned : st.worker m j = .returned) :
    ∀ b < f.numClients, ∀ i < f.clientsPerMachine, OperationsDone f st b i := by
  have hinv := fleetInvariant_of_reachable h
  have hdone := (hinv.machines m hm).ended j hj (by rw [hreturned]; decide)
  have hclosed := (hinv.machines m hm).closed.mp hdone
  intro b hb i hi
  have hpos : 0 < f.clientsPerMachine := Nat.zero_lt_of_lt hi
  -- the machine has entered the last synchronisation, so its first client has passed the loop
  have hround := hinv.rounds.ended m hm hclosed b hb
  have hfirst := (hinv.firstOk hb hpos).rank_of_round.2 hround
  have hmachine := hinv.machines b hb
  have hfull := hmachine.allDone 0 hpos hfirst
  rw [hmachine.doneCount] at hfull
  exact hinv.operationsDone hb hi (all_of_full hfull hi)

/-- The run goes on until the first client returns. -/
def endingRun : List FleetLabel :=
  [.network (.serverReceive 3 0), .network (.answer 3 0 "A"), .network (.deliverResponse 3 0),
    .network (.receive 0), .worker 0 0, .worker 0 0,
    .worker 1 0, .worker 1 0, .worker 1 0, .worker 1 0,
    .network (.sendSync 0), .network (.sendSync 0), .network (.sendSync 0),
    .network (.sendSync 1), .network (.sendSync 1), .network (.sendSync 1),
    .network (.deliverSync 1 0), .network (.deliverSync 0 1), .network (.receive 0),
    .network (.finishSync 0), .worker 0 0, .worker 0 0]

/-- The end of a run with a client that has returned. -/
theorem operations_end_together_run : ∃ st,
    Reachable (fleetStep ⟨2, 1⟩) (.initial ⟨2, 1⟩ singleGet) st ∧ st.worker 0 0 = .returned ∧
      ∀ b < 2, ∀ i < 1, OperationsDone ⟨2, 1⟩ st b i := by
  have hrun : ∃ st, runLabels (fleetStep ⟨2, 1⟩) (.initial ⟨2, 1⟩ singleGet)
      (startingRun ++ endingRun) = some st ∧ st.worker 0 0 = .returned := ⟨_, rfl, rfl⟩
  obtain ⟨st, hst, hreturned⟩ := hrun
  have hreach := reachable_of_runLabels (startingRun ++ endingRun) hst
  exact ⟨st, hreach, hreturned, operations_end_together hreach (by decide) (by decide) hreturned⟩

end TwigKV.ClientSync
