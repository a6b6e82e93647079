import TwigKV.Foundations.LabelledRun
import TwigKV.Foundations.QueueCensus

/-! # The pool of asynchronous RDMA reads (`AsyncRdmaOpCircularBuffer`)

With `RDMA_ASYNC` a server thread reads a remote block with an `AsyncRdmaOp` of the pool: it takes
one from `free_queue`, posts the read on the op's buffer and request token, and puts the op in
`pending_queue` (`rdma_reader_thread`). The polling thread takes ops from there: one that has
completed is answered and goes back to `free_queue`, another goes back to `pending_queue`
(`background_work`).

The ops travel by value. A buffer and a request token are numbered by the op that the constructor
made them for, `none` is `nullptr`. Reading with a null buffer or token, or polling a null token, is
an access through a null pointer, which ends the process here. -/

namespace TwigKV.AsyncRdma

variable {Thread : Type*}

/-- `AsyncRdmaOp`. -/
structure AsyncRdmaOp where
  /-- The buffer to read into. -/
  buffer : Option ℕ
  /-- The request token. -/
  requestToken : Option ℕ
  /-- The remote offset. -/
  offset : ℕ
  /-- The server object that answers. -/
  server : Option ℕ
  /-- The machine to answer. -/
  remoteIndex : ℕ
  /-- Its port. -/
  remotePort : ℕ
deriving DecidableEq, Repr

/-- A default-constructed `AsyncRdmaOp`. The constructor leaves `remote_port` as it finds it. -/
def AsyncRdmaOp.initial : AsyncRdmaOp where
  buffer := none
  requestToken := none
  offset := 0
  server := none
  remoteIndex := 0
  remotePort := 0

/-- The op that the constructor of the pool makes in round `i`. -/
def AsyncRdmaOp.allocated (i : ℕ) : AsyncRdmaOp :=
  { AsyncRdmaOp.initial with buffer := some i, requestToken := some i }

/-- The buffer and the token of an op, which it keeps on its way. -/
def AsyncRdmaOp.resources (op : AsyncRdmaOp) : Option ℕ × Option ℕ :=
  (op.buffer, op.requestToken)

/-- The arguments of `rdma_reader_thread` that go into an op. -/
structure ReadRequest where
  /-- `server`. -/
  server : ℕ
  /-- `offset`. -/
  offset : ℕ
  /-- `remoteIndex`. -/
  remoteIndex : ℕ
  /-- `remote_port`. -/
  remotePort : ℕ
deriving DecidableEq, Repr

/-- An entry of the server's response queue: the value is the content of `buffer`. -/
structure ReadResponse where
  /-- The server object that answers. -/
  server : Option ℕ
  /-- The machine to answer. -/
  remoteIndex : ℕ
  /-- Its port. -/
  remotePort : ℕ
  /-- The buffer that was read into. -/
  buffer : Option ℕ
deriving DecidableEq, Repr

/-- Where a thread stands in `rdma_reader_thread`, with its local variable `async_rdma_op`. -/
inductive ReaderPc where
  /-- Between two calls. -/
  | idle
  /-- `get_next_available_async_rdma_op` has returned an op. -/
  | acquired (request : ReadRequest) (op : AsyncRdmaOp)
  /-- `qp->read` has been posted on the op. -/
  | posted (request : ReadRequest) (op : AsyncRdmaOp)
deriving DecidableEq, Repr

/-- The op in a thread's hands. -/
def ReaderPc.op : ReaderPc → Option AsyncRdmaOp
  | .idle => none
  | .acquired _ op | .posted _ op => some op

/-- The pool and the threads that work on it. -/
structure OpPoolState (Thread : Type*) where
  /-- `free_queue`. -/
  freeQueue : List AsyncRdmaOp
  /-- `pending_queue`. -/
  pendingQueue : List AsyncRdmaOp
  /-- The reading threads. -/
  threads : Thread → ReaderPc
  /-- The op in the polling thread's hands. -/
  poller : Option AsyncRdmaOp
  /-- What `append_to_rdma_get_response_queue` has been called with. -/
  responses : List ReadResponse
  /-- The process has followed a null pointer. -/
  crashed : Bool
  /-- Ghost: the ops that `qp->read` has been called with. -/
  postedReads : List AsyncRdmaOp

/-- The pool after its constructor, for `bufferSize` ops. -/
def OpPoolState.initial (bufferSize : ℕ) : OpPoolState Thread where
  freeQueue := (List.range bufferSize).map .allocated
  pendingQueue := []
  threads := fun _ => .idle
  poller := none
  responses := []
  crashed := false
  postedReads := []

/-- Who moves. A position says which element a dequeue hands out. -/
inductive OpPoolLabel (Thread : Type*) where
  /-- A thread calls `rdma_reader_thread`, which gets an op. -/
  | getOp (t : Thread) (request : ReadRequest) (position : ℕ)
  /-- It posts the read. -/
  | postRead (t : Thread)
  /-- It fills the op in and puts it in `pending_queue`. -/
  | enqueueOp (t : Thread)
  /-- The polling thread takes an op from `pending_queue`. -/
  | pollDequeue (position : ℕ)
  /-- It looks at the op, which has completed or not. -/
  | pollCheck (completed : Bool)
deriving DecidableEq, Repr

variable [DecidableEq Thread]

/-- Thread `t` moves on. -/
def OpPoolState.moveTo (s : OpPoolState Thread) (t : Thread) (pc : ReaderPc) : OpPoolState Thread :=
  { s with threads := Function.update s.threads t pc }

/-- `get_next_available_async_rdma_op`: the loop returns from its first round, and the default op
is returned when there is none. -/
def getNextAvailableAsyncRdmaOp (freeQueue : List AsyncRdmaOp) (position : ℕ) :
    Option (AsyncRdmaOp × List AsyncRdmaOp) :=
  if freeQueue = [] then some (.initial, []) else dequeueAt freeQueue position

/-- The op with the arguments of the call. -/
def AsyncRdmaOp.fill (op : AsyncRdmaOp) (request : ReadRequest) : AsyncRdmaOp :=
  { op with
    server := some request.server
    offset := request.offset
    remoteIndex := request.remoteIndex
    remotePort := request.remotePort }

/-- The body of `background_work` for an op that has been dequeued. -/
def pollOp (s : OpPoolState Thread) (op : AsyncRdmaOp) (completed : Bool) : OpPoolState Thread :=
  if op.requestToken = none then { s with crashed := true }
  else if completed then
    { s with
      responses := s.responses ++ [ReadResponse.mk op.server op.remoteIndex op.remotePort op.buffer]
      freeQueue := s.freeQueue ++ [op]
      poller := none }
  else { s with pendingQueue := s.pendingQueue ++ [op], poller := none }

/-- One step of the pool: `none` where the label is not enabled or the process has ended. -/
def opPoolStep (s : OpPoolState Thread) (label : OpPoolLabel Thread) :
    Option (OpPoolState Thread) :=
  if s.crashed then none
  else match label with
    | .getOp t request position =>
        if s.threads t = .idle then
          (getNextAvailableAsyncRdmaOp s.freeQueue position).map fun (op, rest) =>
            { s with freeQueue := rest }.moveTo t (.acquired request op)
        else none
    | .postRead t =>
        match s.threads t with
        | .acquired request op =>
            -- `qp->read` follows both pointers
            let posted := { s with postedReads := s.postedReads ++ [op] }
            if op.buffer = none ∨ op.requestToken = none then some { posted with crashed := true }
            else some (posted.moveTo t (.posted request op))
        | _ => none
    | .enqueueOp t =>
        match s.threads t with
        | .posted request op =>
            some ({ s with pendingQueue := s.pendingQueue ++ [op.fill request] }.moveTo t .idle)
        | _ => none
    | .pollDequeue position =>
        if s.poller = none then
          (dequeueAt s.pendingQueue position).map fun (op, rest) =>
            { s with pendingQueue := rest, poller := some op }
        else none
    | .pollCheck completed => s.poller.map fun op => pollOp s op completed

/-! ## The moves of a step -/

/-- What a step of the pool can do. -/
inductive OpPoolMove (s : OpPoolState Thread) : OpPoolLabel Thread → OpPoolState Thread → Prop
  /-- A thread gets an op of the pool. -/
  | getOp {t : Thread} {request : ReadRequest} {position : ℕ} {op : AsyncRdmaOp}
      {rest : List AsyncRdmaOp} (hpc : s.threads t = .idle)
      (hfree : dequeueAt s.freeQueue position = some (op, rest)) :
      OpPoolMove s (.getOp t request position)
        ({ s with freeQueue := rest }.moveTo t (.acquired request op))
  /-- A thread gets the default op. -/
  | getDefault {t : Thread} {request : ReadRequest} {position : ℕ} (hpc : s.threads t = .idle)
      (hempty : s.freeQueue = []) :
      OpPoolMove s (.getOp t request position) (s.moveTo t (.acquired request .initial))
  /-- A read is posted. -/
  | postRead {t : Thread} {request : ReadRequest} {op : AsyncRdmaOp}
      (hpc : s.threads t = .acquired request op)
      (hvalid : ¬ (op.buffer = none ∨ op.requestToken = none)) :
      OpPoolMove s (.postRead t)
        ({ s with postedReads := s.postedReads ++ [op] }.moveTo t (.posted request op))
  /-- A read is posted on a null pointer. -/
  | postNull {t : Thread} {request : ReadRequest} {op : AsyncRdmaOp}
      (hpc : s.threads t = .acquired request op)
      (hnull : op.buffer = none ∨ op.requestToken = none) :
      OpPoolMove s (.postRead t) { s with postedReads := s.postedReads ++ [op], crashed := true }
  /-- An op goes to `pending_queue`. -/
  | enqueueOp {t : Thread} {request : ReadRequest} {op : AsyncRdmaOp}
      (hpc : s.threads t = .posted request op) :
      OpPoolMove s (.enqueueOp t)
        ({ s with pendingQueue := s.pendingQueue ++ [op.fill request] }.moveTo t .idle)
  /-- The polling thread takes an op. -/
  | pollDequeue {position : ℕ} {op : AsyncRdmaOp} {rest : List AsyncRdmaOp}
      (hpoller : s.poller = none) (hpending : dequeueAt s.pendingQueue position = some (op, rest)) :
      OpPoolMove s (.pollDequeue position) { s with pendingQueue := rest, poller := some op }
  /-- It looks at an op without a token. -/
  | pollNull {completed : Bool} :
      OpPoolMove s (.pollCheck completed) { s with crashed := true }
  /-- The op has completed. -/
  | pollCompleted {completed : Bool} {op : AsyncRdmaOp} {responses : List ReadResponse}
      (hpoller : s.poller = some op) :
      OpPoolMove s (.pollCheck completed)
        { s with
          responses := responses
          freeQueue := s.freeQueue ++ [op]
          poller := none }
  /-- The op has not completed. -/
  | pollAgain {completed : Bool} {op : AsyncRdmaOp} (hpoller : s.poller = some op) :
      OpPoolMove s (.pollCheck completed)
        { s with pendingQueue := s.pendingQueue ++ [op], poller := none }

/-- Every step is one of the moves, and it is made by a process that has not ended. -/
theorem opPoolStep_cases {s s' : OpPoolState Thread} {label : OpPoolLabel Thread}
    (h : opPoolStep s label = some s') : s.crashed = false ∧ OpPoolMove s label s' := by
  unfold opPoolStep at h
  split at h
  · cases h
  · next hrunning =>
    refine ⟨by simpa using hrunning, ?_⟩
    cases label with
    | getOp t request position =>
      simp only at h
      split at h
      · next hpc =>
        rw [Option.map_eq_some_iff] at h
        obtain ⟨⟨op, rest⟩, hget, rfl⟩ := h
        rw [getNextAvailableAsyncRdmaOp] at hget
        split at hget
        · next hempty =>
          -- the loop is left at once, with the default op
          cases hget
          rw [← hempty]
          exact .getDefault hpc hempty
        · exact .getOp hpc hget
      · cases h
    | postRead t =>
      simp only at h
      split at h
      · next hpc =>
        split at h
        · next hnull =>
          cases h
          exact .postNull hpc hnull
        · next hvalid =>
          cases h
          exact .postRead hpc hvalid
      · cases h
    | enqueueOp t =>
      simp only at h
      split at h
      · next hpc =>
        cases h
        exact .enqueueOp hpc
      · cases h
    | pollDequeue position =>
      simp only at h
      split at h
      · next hpoller =>
        rw [Option.map_eq_some_iff] at h
        obtain ⟨⟨op, rest⟩, hpending, rfl⟩ := h
        exact .pollDequeue hpoller hpending
      · cases h
    | pollCheck completed =>
      rw [Option.map_eq_some_iff] at h
      obtain ⟨op, hpoller, rfl⟩ := h
      rw [pollOp]
      split
      · exact .pollNull
      · split
        · exact .pollCompleted hpoller
        · exact .pollAgain hpoller

end TwigKV.AsyncRdma
