import TwigKV.ClientSync.ClientThreads
import TwigKV.Foundations.CountedBarrier

/-! # The atomics of a machine

The counters and flags of one machine against the places of its threads: what `MachineOk` says holds
at the start and is kept by a thread that moves on (`MachineOk.move`), changes a counter
(`MachineOk.arrive`, `MachineOk.finishOperations`) or sets a flag (`MachineOk.publishReady`,
`MachineOk.publishDone`). -/

namespace TwigKV.ClientSync

/-- The atomics of a machine and where its threads stand. -/
structure MachineOk (w : ℕ) (workers : ℕ → WorkerPc) (totalReady totalDone : ℕ)
    (ready done : Bool) : Prop where
  /-- `total_clients_ready` counts the clients that have arrived. -/
  readyCount : totalReady = countWhere (1 ≤ WorkerPc.rank ·) w workers
  /-- `total_clients_done` counts those that have finished their operations. -/
  doneCount : totalDone = countWhere (5 ≤ WorkerPc.rank ·) w workers
  /-- The first loop lets a client pass when all have arrived. -/
  allReady : ∀ j < w, 2 ≤ (workers j).rank → w ≤ totalReady
  /-- The second loop lets a client pass when `workload_ready` is set. -/
  started : ∀ j < w, 4 ≤ (workers j).rank → ready = true
  /-- The first client sets it after its synchronisation. -/
  synced : ready = true ↔ 3 ≤ (workers 0).rank
  /-- The third loop lets a client pass when all have finished. -/
  allDone : ∀ j < w, 6 ≤ (workers j).rank → w ≤ totalDone
  /-- The last loop lets a client pass when `workload_done` is set. -/
  ended : ∀ j < w, 8 ≤ (workers j).rank → done = true
  /-- The first client sets it after its synchronisation. -/
  closed : done = true ↔ 7 ≤ (workers 0).rank

section MachineOk

variable {w j totalReady totalDone : ℕ} {workers : ℕ → WorkerPc} {ready done : Bool} {pc : WorkerPc}

/-- A machine before its threads have started. -/
theorem machineOk_initial (w : ℕ) : MachineOk w (fun _ => .arriving) 0 0 false false := by
  constructor
  case readyCount | doneCount => rw [countWhere_eq_zero fun _ _ => by decide]
  case allReady | started | allDone | ended => exact fun _ _ h => absurd h (by decide)
  case synced | closed => exact ⟨fun h => absurd h (by decide), fun h => absurd h (by decide)⟩

/-- A property of the threads past some place, after one of them has moved. -/
theorem forall_update {k : ℕ} {P : Prop} (h : ∀ i < w, k ≤ (workers i).rank → P)
    (hpc : k ≤ pc.rank → P) : ∀ i < w, k ≤ (Function.update workers j pc i).rank → P := by
  intro i hi hrank
  by_cases hij : i = j
  · subst hij
    rw [Function.update_self] at hrank
    exact hpc hrank
  · rw [Function.update_of_ne hij] at hrank
    exact h i hi hrank

/-- A first client that stays on its side of a place, or another one that moves. -/
theorem first_update {k : ℕ} (h : j = 0 → (k ≤ (workers 0).rank ↔ k ≤ pc.rank)) :
    k ≤ (workers 0).rank ↔ k ≤ (Function.update workers j pc 0).rank := by
  by_cases hj : 0 = j
  · subst hj
    rw [Function.update_self]
    exact h rfl
  · rw [Function.update_of_ne hj]

/-- A thread moves on without changing an atomic. -/
theorem MachineOk.move (h : MachineOk w workers totalReady totalDone ready done)
    (harrived : 1 ≤ (workers j).rank ↔ 1 ≤ pc.rank)
    (hfinished : 5 ≤ (workers j).rank ↔ 5 ≤ pc.rank) (hallReady : 2 ≤ pc.rank → w ≤ totalReady)
    (hstarted : 4 ≤ pc.rank → ready = true) (hallDone : 6 ≤ pc.rank → w ≤ totalDone)
    (hended : 8 ≤ pc.rank → done = true)
    (hsynced : j = 0 → (3 ≤ (workers 0).rank ↔ 3 ≤ pc.rank))
    (hclosed : j = 0 → (7 ≤ (workers 0).rank ↔ 7 ≤ pc.rank)) :
    MachineOk w (Function.update workers j pc) totalReady totalDone ready done where
  readyCount := by rw [countWhere_update_same harrived]; exact h.readyCount
  doneCount := by rw [countWhere_update_same hfinished]; exact h.doneCount
  allReady := forall_update h.allReady hallReady
  started := forall_update h.started hstarted
  synced := h.synced.trans (first_update hsynced)
  allDone := forall_update h.allDone hallDone
  ended := forall_update h.ended hended
  closed := h.closed.trans (first_update hclosed)

/-- A thread counts itself in. -/
theorem MachineOk.arrive (h : MachineOk w workers totalReady totalDone ready done) (hj : j < w)
    (hpc : workers j = .arriving) :
    MachineOk w (Function.update workers j .awaitingReady) (totalReady + 1) totalDone ready
      done := by
  constructor
  case readyCount => rw [countWhere_update_enter hj (by rw [hpc]; decide) (by decide), h.readyCount]
  case doneCount => rw [countWhere_update_same (by rw [hpc]; decide)]; exact h.doneCount
  case allReady =>
    exact forall_update (fun i hi hrank => Nat.le_succ_of_le (h.allReady i hi hrank))
      fun hrank => absurd hrank (by decide)
  case started => exact forall_update h.started fun hrank => absurd hrank (by decide)
  case synced =>
    refine h.synced.trans (first_update ?_)
    intro hj0
    subst hj0
    rw [hpc]
    decide
  case allDone => exact forall_update h.allDone fun hrank => absurd hrank (by decide)
  case ended => exact forall_update h.ended fun hrank => absurd hrank (by decide)
  case closed =>
    refine h.closed.trans (first_update ?_)
    intro hj0
    subst hj0
    rw [hpc]
    decide

/-- A thread has finished its operations. -/
theorem MachineOk.finishOperations (h : MachineOk w workers totalReady totalDone ready done)
    (hj : j < w) (hpc : workers j = .running) :
    MachineOk w (Function.update workers j .awaitingDone) totalReady (totalDone + 1) ready
      done := by
  have hrunning : 4 ≤ (workers j).rank := by rw [hpc]; decide
  constructor
  case readyCount => rw [countWhere_update_same (by rw [hpc]; decide)]; exact h.readyCount
  case doneCount => rw [countWhere_update_enter hj (by rw [hpc]; decide) (by decide), h.doneCount]
  case allReady =>
    exact forall_update h.allReady fun _ => h.allReady j hj (Nat.le_trans (by decide) hrunning)
  case started => exact forall_update h.started fun _ => h.started j hj hrunning
  case synced =>
    refine h.synced.trans (first_update ?_)
    intro hj0
    subst hj0
    rw [hpc]
    decide
  case allDone =>
    exact forall_update (fun i hi hrank => Nat.le_succ_of_le (h.allDone i hi hrank))
      fun hrank => absurd hrank (by decide)
  case ended => exact forall_update h.ended fun hrank => absurd hrank (by decide)
  case closed =>
    refine h.closed.trans (first_update ?_)
    intro hj0
    subst hj0
    rw [hpc]
    decide

/-- The first client sets `workload_ready`. -/
theorem MachineOk.publishReady (h : MachineOk w workers totalReady totalDone ready done)
    (hw : 0 < w) (hpc : workers 0 = .syncing) :
    MachineOk w (Function.update workers 0 .awaitingStart) totalReady totalDone true done := by
  constructor
  case readyCount => rw [countWhere_update_same (by rw [hpc]; decide)]; exact h.readyCount
  case doneCount => rw [countWhere_update_same (by rw [hpc]; decide)]; exact h.doneCount
  case allReady => exact forall_update h.allReady fun _ => h.allReady 0 hw (by rw [hpc]; decide)
  case started => exact fun _ _ _ => rfl
  case synced => exact ⟨fun _ => by rw [Function.update_self]; decide, fun _ => rfl⟩
  case allDone => exact forall_update h.allDone fun hrank => absurd hrank (by decide)
  case ended => exact forall_update h.ended fun hrank => absurd hrank (by decide)
  case closed => exact h.closed.trans (first_update fun _ => by rw [hpc]; decide)

/-- The first client sets `workload_done`. -/
theorem MachineOk.publishDone (h : MachineOk w workers totalReady totalDone ready done)
    (hw : 0 < w) (hpc : workers 0 = .closing) :
    MachineOk w (Function.update workers 0 .awaitingEnd) totalReady totalDone ready true := by
  constructor
  case readyCount => rw [countWhere_update_same (by rw [hpc]; decide)]; exact h.readyCount
  case doneCount => rw [countWhere_update_same (by rw [hpc]; decide)]; exact h.doneCount
  case allReady => exact forall_update h.allReady fun _ => h.allReady 0 hw (by rw [hpc]; decide)
  case started => exact forall_update h.started fun _ => h.started 0 hw (by rw [hpc]; decide)
  case synced => exact h.synced.trans (first_update fun _ => by rw [hpc]; decide)
  case allDone => exact forall_update h.allDone fun _ => h.allDone 0 hw (by rw [hpc]; decide)
  case ended => exact fun _ _ _ => rfl
  case closed => exact ⟨fun _ => by rw [Function.update_self]; decide, fun _ => rfl⟩

end MachineOk

end TwigKV.ClientSync
