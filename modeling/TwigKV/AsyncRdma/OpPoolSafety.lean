import TwigKV.AsyncRdma.OpPool
import Mathlib.Algebra.BigOperators.Group.Multiset.Basic
import Mathlib.Algebra.Order.Group.Multiset
import Mathlib.Data.Multiset.Range
import Mathlib.Tactic.Abel

/-! # The ops of the pool are neither lost nor doubled nor made up

Every step moves ops between the two queues, the reading threads and the polling thread, so the
buffers and tokens of all of them stay the ones the constructor allocated. The exception is
`get_next_available_async_rdma_op` on an empty `free_queue`: its `while` returns from the first
round instead of waiting, and what it returns is a default op. A run is free of it exactly when
every read starts while fewer reads are outstanding than the pool has ops (`op_pool_safe_iff`). -/

namespace TwigKV.AsyncRdma

variable {Thread : Type*} [Fintype Thread]

/-- The buffers and tokens of the ops of a queue. -/
def queueOps (q : List AsyncRdmaOp) : Multiset (Option ℕ × Option ℕ) :=
  (q.map AsyncRdmaOp.resources : List (Option ℕ × Option ℕ))

/-- The buffer and the token of an op in someone's hands. -/
def handOps (hand : Option AsyncRdmaOp) : Multiset (Option ℕ × Option ℕ) :=
  queueOps hand.toList

/-- The buffers and tokens of all ops, in `free_queue`, in `pending_queue` and in the hands of the
polling thread and of the reading threads. -/
def OpPoolState.ops (s : OpPoolState Thread) : Multiset (Option ℕ × Option ℕ) :=
  queueOps s.freeQueue + queueOps s.pendingQueue + handOps s.poller
    + ∑ t, handOps (s.threads t).op

/-- The preallocated set. -/
def preallocatedOps (bufferSize : ℕ) : Multiset (Option ℕ × Option ℕ) :=
  queueOps ((List.range bufferSize).map .allocated)

/-- The reads that have an op: those in the threads' hands, in `pending_queue` and in the polling
thread's hands. -/
def OpPoolState.outstandingReads (s : OpPoolState Thread) : ℕ :=
  s.pendingQueue.length + (if s.poller.isSome then 1 else 0)
    + heldWeight (fun pc : ReaderPc => if pc.op.isSome then 1 else 0) s.threads

/-- A read starts while fewer reads are outstanding than there are ops. -/
def FewerOutstanding (bufferSize : ℕ) (s : OpPoolState Thread) : OpPoolLabel Thread → Prop
  | .getOp _ _ _ => s.outstandingReads < bufferSize
  | _ => True

/-- Which can be computed. -/
instance decidableFewerOutstanding (bufferSize : ℕ) (s : OpPoolState Thread) :
    (label : OpPoolLabel Thread) → Decidable (FewerOutstanding bufferSize s label)
  | .getOp _ _ _ => inferInstanceAs (Decidable (s.outstandingReads < bufferSize))
  | .postRead _ | .enqueueOp _ | .pollDequeue _ | .pollCheck _ => inferInstanceAs (Decidable True)

/-- The ops are safe: only preallocated ops have been posted, an op in a thread's hands is nowhere
else, and the ops are the preallocated ones. -/
structure OpPoolSafe (bufferSize : ℕ) (s : OpPoolState Thread) : Prop where
  /-- A read has been posted on a buffer and a token of the constructor. -/
  posted : ∀ op ∈ s.postedReads, ∃ i < bufferSize, op.resources = (some i, some i)
  /-- No other outstanding read holds the op that a thread holds. -/
  exclusive : ∀ t op, (s.threads t).op = some op →
    op.resources ∉ queueOps s.freeQueue ∧ op.resources ∉ queueOps s.pendingQueue ∧
      op.resources ∉ handOps s.poller ∧
      ∀ t', t' ≠ t → op.resources ∉ handOps (s.threads t').op
  /-- The ops are the preallocated ones. -/
  ops : s.ops = preallocatedOps bufferSize

/-! ## Moving ops -/

@[simp] theorem queueOps_nil : queueOps [] = 0 := rfl

@[simp] theorem queueOps_cons (op : AsyncRdmaOp) (q : List AsyncRdmaOp) :
    queueOps (op :: q) = op.resources ::ₘ queueOps q := rfl

@[simp] theorem queueOps_append (p q : List AsyncRdmaOp) :
    queueOps (p ++ q) = queueOps p + queueOps q := by
  rw [queueOps, List.map_append, ← Multiset.coe_add, queueOps, queueOps]

@[simp] theorem handOps_none : handOps none = 0 := rfl

@[simp] theorem handOps_some (op : AsyncRdmaOp) : handOps (some op) = {op.resources} := rfl

/-- A dequeue takes one op out. -/
theorem queueOps_of_dequeueAt {q rest : List AsyncRdmaOp} {i : ℕ} {op : AsyncRdmaOp}
    (h : dequeueAt q i = some (op, rest)) : queueOps q = op.resources ::ₘ queueOps rest :=
  Multiset.coe_eq_coe.mpr ((dequeueAt_perm h).map _)

/-- A preallocated op has the buffer and the token of one round of the constructor. -/
theorem mem_preallocatedOps {bufferSize : ℕ} {x : Option ℕ × Option ℕ} :
    x ∈ preallocatedOps bufferSize ↔ ∃ i < bufferSize, x = (some i, some i) := by
  rw [preallocatedOps, queueOps, Multiset.mem_coe, List.map_map, List.mem_map]
  constructor
  · rintro ⟨i, hi, rfl⟩
    exact ⟨i, List.mem_range.mp hi, rfl⟩
  · rintro ⟨i, hi, rfl⟩
    exact ⟨i, List.mem_range.mpr hi, rfl⟩

/-- The constructor makes every op once. -/
theorem nodup_preallocatedOps (bufferSize : ℕ) : (preallocatedOps bufferSize).Nodup := by
  rw [preallocatedOps, queueOps, Multiset.coe_nodup, List.map_map]
  apply List.nodup_range.map
  intro i j hij
  exact Option.some.inj (Prod.mk.inj hij).1

/-- There is an op in `free_queue` for every one that no read has. -/
theorem card_ops (s : OpPoolState Thread) :
    Multiset.card s.ops = s.freeQueue.length + s.outstandingReads := by
  have hqueue : ∀ q, Multiset.card (queueOps q) = q.length := fun q => List.length_map _
  have hhand : ∀ hand : Option AsyncRdmaOp,
      Multiset.card (handOps hand) = if hand.isSome then 1 else 0 := by
    intro hand
    cases hand with
    | none => rfl
    | some op => rfl
  rw [OpPoolState.ops, Multiset.card_add, Multiset.card_add, Multiset.card_add, hqueue, hqueue,
    hhand, Multiset.card_sum, OpPoolState.outstandingReads, heldWeight]
  simp only [hhand]
  omega

/-- No op is in two places when all are preallocated. -/
theorem exclusive_of_ops {bufferSize : ℕ} {s : OpPoolState Thread}
    (h : s.ops = preallocatedOps bufferSize) {t : Thread} {op : AsyncRdmaOp}
    (hop : (s.threads t).op = some op) :
    op.resources ∉ queueOps s.freeQueue ∧ op.resources ∉ queueOps s.pendingQueue ∧
      op.resources ∉ handOps s.poller ∧
      ∀ t', t' ≠ t → op.resources ∉ handOps (s.threads t').op := by
  classical
  -- the op is counted once, and that is in thread `t`'s hands
  have hcount : s.ops.count op.resources ≤ 1 := by
    rw [h]
    exact Multiset.nodup_iff_count_le_one.mp (nodup_preallocatedOps bufferSize) _
  rw [OpPoolState.ops, Multiset.count_add, Multiset.count_add, Multiset.count_add,
    Multiset.count_sum', ← Finset.add_sum_erase Finset.univ _ (Finset.mem_univ t), hop,
    handOps_some, Multiset.count_singleton_self] at hcount
  refine ⟨?_, ?_, ?_, ?_⟩
  · rw [← Multiset.count_eq_zero]
    omega
  · rw [← Multiset.count_eq_zero]
    omega
  · rw [← Multiset.count_eq_zero]
    omega
  · intro t' hne
    have hle : (handOps (s.threads t').op).count op.resources
        ≤ ∑ i ∈ Finset.univ.erase t, (handOps (s.threads i).op).count op.resources :=
      Finset.single_le_sum (f := fun i => (handOps (s.threads i).op).count op.resources)
        (fun _ _ => Nat.zero_le _) (Finset.mem_erase.mpr ⟨hne, Finset.mem_univ t'⟩)
    rw [← Multiset.count_eq_zero]
    omega

section Steps

variable [DecidableEq Thread] {bufferSize : ℕ} {s s' : OpPoolState Thread}
  {label : OpPoolLabel Thread}

/-- A thread moves ops between its hands and the queues. -/
theorem ops_of_thread {t : Thread} {pc : ReaderPc}
    (hthreads : s'.threads = Function.update s.threads t pc) (hpoller : s'.poller = s.poller)
    (hqueues : queueOps s'.freeQueue + queueOps s'.pendingQueue + handOps pc.op
      = queueOps s.freeQueue + queueOps s.pendingQueue + handOps (s.threads t).op) :
    s'.ops = s.ops := by
  have hupd := sum_update_add (fun pc : ReaderPc => handOps pc.op) s.threads t pc
  apply add_right_cancel (b := handOps (s.threads t).op)
  calc s'.ops + handOps (s.threads t).op
      = queueOps s'.freeQueue + queueOps s'.pendingQueue + handOps s.poller
        + (∑ i, handOps (Function.update s.threads t pc i).op + handOps (s.threads t).op) := by
        rw [OpPoolState.ops, hthreads, hpoller, add_assoc]
    _ = (queueOps s'.freeQueue + queueOps s'.pendingQueue + handOps pc.op) + handOps s.poller
        + ∑ i, handOps (s.threads i).op := by
        rw [hupd]
        abel
    _ = s.ops + handOps (s.threads t).op := by
        rw [hqueues, OpPoolState.ops]
        abel

/-- Without a default op, every step keeps the ops. -/
theorem ops_step (hs : opPoolStep s label = some s')
    (hfree : ∀ t request position, label = .getOp t request position → s.freeQueue ≠ []) :
    s'.ops = s.ops := by
  obtain ⟨-, hmove⟩ := opPoolStep_cases hs
  cases hmove with
  | @getOp t request position op rest hpc hdequeue =>
    -- from `free_queue` to the thread's hands
    refine ops_of_thread rfl rfl ?_
    show queueOps rest + queueOps s.pendingQueue + {op.resources} = _
    rw [hpc, queueOps_of_dequeueAt hdequeue, ReaderPc.op, handOps_none,
      ← Multiset.singleton_add]
    abel
  | getDefault hpc hempty => exact absurd hempty (hfree _ _ _ rfl)
  | postRead hpc hvalid =>
    refine ops_of_thread rfl rfl ?_
    rw [hpc]
    rfl
  | postNull hpc hnull => rfl
  | @enqueueOp t request op hpc =>
    -- filling the op in leaves its buffer and its token
    refine ops_of_thread rfl rfl ?_
    show queueOps s.freeQueue + queueOps (s.pendingQueue ++ [op.fill request]) + 0 = _
    rw [hpc, queueOps_append, add_zero, ← add_assoc]
    rfl
  | @pollDequeue position op rest hpoller hpending =>
    show queueOps s.freeQueue + queueOps rest + {op.resources} + _
      = queueOps s.freeQueue + queueOps s.pendingQueue + handOps s.poller + _
    rw [queueOps_of_dequeueAt hpending, hpoller, handOps_none, ← Multiset.singleton_add]
    abel
  | pollNull => rfl
  | @pollCompleted completed op responses hpoller =>
    show queueOps (s.freeQueue ++ [op]) + queueOps s.pendingQueue + 0 + _
      = queueOps s.freeQueue + queueOps s.pendingQueue + handOps s.poller + _
    rw [hpoller, queueOps_append, handOps_some, queueOps_cons, queueOps_nil,
      ← Multiset.singleton_add]
    abel
  | @pollAgain completed op hpoller =>
    show queueOps s.freeQueue + queueOps (s.pendingQueue ++ [op]) + 0 + _
      = queueOps s.freeQueue + queueOps s.pendingQueue + handOps s.poller + _
    rw [hpoller, queueOps_append, handOps_some, queueOps_cons, queueOps_nil,
      ← Multiset.singleton_add]
    abel

omit [DecidableEq Thread] in
/-- The op in a thread's hands is one of the ops. -/
theorem mem_ops_of_thread {t : Thread} {op : AsyncRdmaOp} (hop : (s.threads t).op = some op) :
    op.resources ∈ s.ops := by
  have hmem : op.resources ∈ ∑ i, handOps (s.threads i).op := by
    rw [Multiset.mem_sum]
    exact ⟨t, Finset.mem_univ t, by rw [hop]; exact Multiset.mem_singleton_self _⟩
  exact Multiset.mem_add.mpr (Or.inr hmem)

omit [DecidableEq Thread] in
/-- With all ops preallocated, `free_queue` is not empty while a read may start. -/
theorem freeQueue_ne_nil (h : s.ops = preallocatedOps bufferSize)
    (hfewer : s.outstandingReads < bufferSize) : s.freeQueue ≠ [] := by
  have hcard := card_ops s
  have hsize : Multiset.card (preallocatedOps bufferSize) = bufferSize := by
    rw [preallocatedOps, queueOps, Multiset.coe_card, List.length_map, List.length_map,
      List.length_range]
  rw [h, hsize] at hcard
  intro hempty
  rw [hempty, List.length_nil] at hcard
  omega

/-- A step before which there are fewer reads than ops keeps the ops safe. -/
theorem OpPoolSafe.step (h : OpPoolSafe bufferSize s)
    (hfewer : FewerOutstanding bufferSize s label) (hs : opPoolStep s label = some s') :
    OpPoolSafe bufferSize s' := by
  have hops : s'.ops = preallocatedOps bufferSize := by
    rw [ops_step hs, h.ops]
    rintro t request position rfl
    exact freeQueue_ne_nil h.ops hfewer
  refine ⟨?_, fun t op hop => exclusive_of_ops hops hop, hops⟩
  -- an op that is posted was in the thread's hands
  have hpost : ∀ {t request op}, s.threads t = .acquired request op →
      ∀ posted ∈ s.postedReads ++ [op],
        ∃ i < bufferSize, posted.resources = (some i, some i) := by
    intro t request op hpc posted hmem
    rcases List.mem_append.mp hmem with hold | hnew
    · exact h.posted posted hold
    · rw [List.mem_singleton.mp hnew, ← mem_preallocatedOps, ← h.ops]
      exact mem_ops_of_thread (t := t) (by rw [hpc]; rfl)
  obtain ⟨-, hmove⟩ := opPoolStep_cases hs
  cases hmove with
  | postRead hpc hvalid => exact hpost hpc
  | postNull hpc hnull => exact hpost hpc
  | getOp hpc hdequeue => exact h.posted
  | getDefault hpc hempty => exact h.posted
  | enqueueOp hpc => exact h.posted
  | pollDequeue hpoller hpending => exact h.posted
  | pollNull => exact h.posted
  | pollCompleted hpoller => exact h.posted
  | pollAgain hpoller => exact h.posted

/-! ## The default op -/

/-- A thread has been given the default op. -/
def DefaultHeld (s : OpPoolState Thread) : Prop :=
  ∃ t request, s.threads t = .acquired request .initial

omit [DecidableEq Thread] in
/-- The default op is not one of the pool's. -/
theorem DefaultHeld.not_safe (h : DefaultHeld s) : ¬ OpPoolSafe bufferSize s := by
  obtain ⟨t, request, hpc⟩ := h
  intro hsafe
  have hop : (s.threads t).op = some .initial := by
    rw [hpc]
    rfl
  have hmem : (none, none) ∈ s.ops := mem_ops_of_thread hop
  rw [hsafe.ops, mem_preallocatedOps] at hmem
  obtain ⟨i, -, hi⟩ := hmem
  cases hi

omit [Fintype Thread] in
/-- The thread that has it keeps it: its next step follows the null pointer. -/
theorem DefaultHeld.step (h : DefaultHeld s) (hs : opPoolStep s label = some s') :
    DefaultHeld s' := by
  obtain ⟨t, request, hpc⟩ := h
  -- a step of another thread leaves `t` where it is
  have hother : ∀ {t' pc}, t' ≠ t →
      Function.update s.threads t' pc t = .acquired request .initial := by
    intro t' pc hne
    rw [Function.update_of_ne hne.symm, hpc]
  obtain ⟨-, hmove⟩ := opPoolStep_cases hs
  cases hmove with
  | getOp hpc' hdequeue =>
    refine ⟨t, request, hother ?_⟩
    rintro rfl
    rw [hpc] at hpc'
    cases hpc'
  | getDefault hpc' hempty =>
    refine ⟨t, request, hother ?_⟩
    rintro rfl
    rw [hpc] at hpc'
    cases hpc'
  | postRead hpc' hvalid =>
    refine ⟨t, request, hother ?_⟩
    rintro rfl
    rw [hpc] at hpc'
    cases hpc'
    -- with a null buffer this read would have ended the process
    exact hvalid (Or.inl rfl)
  | postNull hpc' hnull => exact ⟨t, request, hpc⟩
  | enqueueOp hpc' =>
    refine ⟨t, request, hother ?_⟩
    rintro rfl
    rw [hpc] at hpc'
    cases hpc'
  | pollDequeue hpoller hpending => exact ⟨t, request, hpc⟩
  | pollNull => exact ⟨t, request, hpc⟩
  | pollCompleted hpoller => exact ⟨t, request, hpc⟩
  | pollAgain hpoller => exact ⟨t, request, hpc⟩

/-- A read that starts with as many reads outstanding as there are ops is given the default op. -/
theorem defaultHeld_of_not_fewer (h : OpPoolSafe bufferSize s)
    (hfewer : ¬ FewerOutstanding bufferSize s label) (hs : opPoolStep s label = some s') :
    DefaultHeld s' := by
  obtain ⟨-, hmove⟩ := opPoolStep_cases hs
  cases hmove with
  | @getOp t request position op rest hpc hdequeue =>
    -- an op in `free_queue` leaves one op less for the reads outstanding
    have hlength : s.freeQueue.length = rest.length + 1 := (dequeueAt_perm hdequeue).length_eq
    have hcard := card_ops s
    rw [h.ops, preallocatedOps, queueOps, Multiset.coe_card, List.length_map, List.length_map,
      List.length_range] at hcard
    exact absurd (show s.outstandingReads < bufferSize by omega) hfewer
  | @getDefault t request position hpc hempty =>
    exact ⟨t, request, Function.update_self _ _ _⟩
  | _ => exact absurd trivial hfewer

/-- A run out of a safe state ends in a safe state exactly when its reads start with fewer reads
outstanding than there are ops. -/
theorem op_pool_safe_from (ls : List (OpPoolLabel Thread)) (h : OpPoolSafe bufferSize s)
    (hrun : runLabels opPoolStep s ls = some s') :
    OpPoolSafe bufferSize s' ↔ EveryStep opPoolStep (FewerOutstanding bufferSize) s ls := by
  refine good_iff_everyStep (I := fun _ => True) (OpPoolSafe bufferSize) DefaultHeld
    ?_ ?_ ?_ ?_ ?_ trivial h hrun
  · exact fun _ _ _ _ _ => trivial
  · exact fun _ _ _ _ hsafe hfewer hs => hsafe.step hfewer hs
  · exact fun _ _ _ _ hsafe hfewer hs => defaultHeld_of_not_fewer hsafe hfewer hs
  · exact fun _ _ _ _ hdefault hs => hdefault.step hs
  · exact fun _ hdefault => hdefault.not_safe

end Steps

/-- The pool is safe after its constructor. -/
theorem opPoolSafe_initial (bufferSize : ℕ) :
    OpPoolSafe bufferSize (.initial bufferSize : OpPoolState Thread) := by
  have hops : (.initial bufferSize : OpPoolState Thread).ops = preallocatedOps bufferSize := by
    have hhands : ∑ t : Thread, handOps ((OpPoolState.initial bufferSize : OpPoolState
        Thread).threads t).op = 0 := Finset.sum_eq_zero fun _ _ => rfl
    rw [OpPoolState.ops, hhands, add_zero]
    show preallocatedOps bufferSize + 0 + 0 = _
    rw [add_zero, add_zero]
  exact ⟨fun op hmem => absurd hmem List.not_mem_nil, fun t op hop => exclusive_of_ops hops hop,
    hops⟩

variable [DecidableEq Thread]

/-- **The op pool.** For every pool size, any number of reading threads and every interleaving with
the polling thread: the ops that have been posted are preallocated ones, no op is held twice and the
ops in the queues and in hands are the preallocated set, if and only if every read of the run got
its op while fewer reads were outstanding than the pool has ops. -/
theorem op_pool_safe_iff (bufferSize : ℕ) {ls : List (OpPoolLabel Thread)} {s : OpPoolState Thread}
    (h : runLabels opPoolStep (.initial bufferSize) ls = some s) :
    OpPoolSafe bufferSize s
      ↔ EveryStep opPoolStep (FewerOutstanding bufferSize) (.initial bufferSize) ls :=
  op_pool_safe_from ls (opPoolSafe_initial bufferSize) h

/-- A read at a remote offset for a client. -/
def someRequest : ReadRequest := ⟨0, 4096, 3, 50100⟩

/-- One thread reads once. -/
def oneReadRun : List (OpPoolLabel Unit) :=
  [.getOp () someRequest 0, .postRead (), .enqueueOp ()]

/-- A pool of one op with one read under way. -/
theorem op_pool_safe_iff_one_read :
    ∃ s, runLabels opPoolStep (.initial 1) oneReadRun = some s ∧ OpPoolSafe 1 s := by
  have hrun : ∃ s, runLabels opPoolStep (.initial 1) oneReadRun = some s := ⟨_, rfl⟩
  obtain ⟨s, hs⟩ := hrun
  exact ⟨s, hs, (op_pool_safe_iff 1 hs).mpr (by decide)⟩

/-- A pool of one op with a second read while the first is under way: the read is posted on null
pointers. -/
theorem op_pool_two_reads :
    ∃ s, runLabels opPoolStep (.initial 1)
        (oneReadRun ++ [.getOp () someRequest 0, .postRead ()]) = some s ∧
      AsyncRdmaOp.initial ∈ s.postedReads ∧ ¬ OpPoolSafe 1 s := by
  have hrun : ∃ s, runLabels opPoolStep (.initial 1)
      (oneReadRun ++ [.getOp () someRequest 0, .postRead ()]) = some s ∧
      AsyncRdmaOp.initial ∈ s.postedReads := ⟨_, rfl, by decide⟩
  obtain ⟨s, hs, hmem⟩ := hrun
  refine ⟨s, hs, hmem, ?_⟩
  intro hsafe
  obtain ⟨i, -, hi⟩ := hsafe.posted .initial hmem
  cases hi

end TwigKV.AsyncRdma
