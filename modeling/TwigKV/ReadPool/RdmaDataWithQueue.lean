import TwigKV.Foundations.LabelledRun
import TwigKV.Foundations.QueueCensus
import Mathlib.Logic.Function.Basic

/-! # The RDMA read pool (`RDMADataWithQueue`)

`KeyValueStorage` reads remote slots through `RDMADataWithQueue::read`, and the completion workers
hand the data to the callers' callbacks in `RDMADataWithQueue::execute_pending`. Both run in any
number of threads and share three queues: `free_queue` (data buffers nobody uses),
`pending_read_queue` (posted reads) and the base class's `free_request_token_queue`.

The model follows a thread from one queue operation to the next; between two of them a thread holds
its `DataWithRequestToken` in a local variable (`ThreadState`). Buffers and tokens are numbered, a
`nullptr` token is `none`, and an empty `std::function` callback is `none`. Three fields are history
only and influence no step: the number of accepted reads, the buffer each accepted read with a
callback was given, and the callbacks that ran. -/

namespace TwigKV.ReadPool

variable {Thread : Type*}

/-- `RDMADataWithQueue::DataWithRequestToken`: a data buffer with the token and the callback of the
read that uses it. The callback is named by the number of the read that passed it. -/
structure DataWithRequestToken where
  /-- The data buffer. -/
  data : ℕ
  /-- The request token of the posted read, `none` for `nullptr`. -/
  token : Option ℕ
  /-- The machine read from. -/
  remoteIndex : ℕ
  /-- The callback, `none` for an empty function. -/
  callback : Option ℕ
deriving DecidableEq, Repr

/-- Where a thread stands inside `read` or `execute_pending`, with its local variable
`data_with_request_token`. -/
inductive ThreadState where
  /-- Between calls. -/
  | idle
  /-- In `read`: it spins until `free_queue` hands out a buffer. -/
  | spinning (remoteIndex : ℕ) (hasCallback : Bool)
  /-- In `read`: a buffer was dequeued from `free_queue` and filled in. -/
  | acquired (d : DataWithRequestToken)
  /-- In `read`: a token was taken and the RDMA read posted. -/
  | posted (d : DataWithRequestToken)
  /-- In `execute_pending`: a posted read was dequeued from `pending_read_queue`. -/
  | dequeued (d : DataWithRequestToken)
  /-- In `execute_pending`: the read has completed and its callback has run. -/
  | calledBack (d : DataWithRequestToken)
  /-- In `execute_pending`: the token went back to `free_request_token_queue`. -/
  | tokenFreed (d : DataWithRequestToken)
deriving DecidableEq, Repr

/-- The shared state of one `RDMADataWithQueue` and of the threads working on it. -/
structure PoolState (Thread : Type*) where
  /-- `free_queue`. -/
  freeQueue : List DataWithRequestToken
  /-- `pending_read_queue`. -/
  pendingReadQueue : List DataWithRequestToken
  /-- `free_request_token_queue` of the base class `RDMAData`. -/
  freeRequestTokenQueue : List ℕ
  /-- Every thread's position and local variable. -/
  threads : Thread → ThreadState
  /-- Which tokens the network card has completed since their last reset. -/
  completed : ℕ → Bool
  /-- `get_request_token` found its queue empty and panicked. -/
  panicked : Bool
  /-- History: how many reads were accepted; they are numbered from `0`. -/
  acceptedReads : ℕ
  /-- History: the buffer given to each accepted read that passed a callback. -/
  readBuffer : ℕ → Option ℕ
  /-- History: the callbacks that ran, each with the buffer it was run on. -/
  callbackRuns : List (ℕ × ℕ)

/-- The constructors: `queueSize` data buffers in `free_queue`, `tokenQueueSize` tokens in
`free_request_token_queue`, every thread outside the pool. -/
def PoolState.init (Thread : Type*) (queueSize tokenQueueSize : ℕ) : PoolState Thread where
  freeQueue := (List.range queueSize).map fun i => ⟨i, none, 0, none⟩
  pendingReadQueue := []
  freeRequestTokenQueue := List.range tokenQueueSize
  threads := fun _ => .idle
  completed := fun _ => false
  panicked := false
  acceptedReads := 0
  readBuffer := fun _ => none
  callbackRuns := []

/-- One move of one thread, or of the network card. A position `i` says which element a dequeue
hands out. -/
inductive PoolLabel (Thread : Type*) where
  /-- `read` is called and has no buffer yet. -/
  | readCall (t : Thread) (remoteIndex : ℕ) (hasCallback : Bool)
  /-- `read`: dequeue from `free_queue` and store the arguments. -/
  | readDequeueFree (t : Thread) (i remoteIndex : ℕ) (hasCallback : Bool)
  /-- `read`: `get_request_token`, reset the token and post the RDMA read. -/
  | readPost (t : Thread) (i : ℕ)
  /-- `read`: enqueue into `pending_read_queue`. -/
  | readEnqueuePending (t : Thread)
  /-- The network card completes the read posted with this token. -/
  | readCompletes (token : ℕ)
  /-- `execute_pending`: dequeue from `pending_read_queue`. -/
  | executeDequeuePending (t : Thread) (i : ℕ)
  /-- `execute_pending`: `waitUntilCompleted` returns and the callback runs, if there is one. -/
  | executeCallback (t : Thread)
  /-- `execute_pending`: `free_request_token`. -/
  | executeFreeRequestToken (t : Thread)
  /-- `execute_pending`: enqueue into `free_queue`. -/
  | executeEnqueueFree (t : Thread)

variable [DecidableEq Thread]

/-- Thread `t` moves to `x`; nothing else changes. -/
def PoolState.moveTo (s : PoolState Thread) (t : Thread) (x : ThreadState) : PoolState Thread :=
  { s with threads := Function.update s.threads t x }

section MoveTo

variable (s : PoolState Thread) (t : Thread) (x : ThreadState)

@[simp] theorem moveTo_freeQueue : (s.moveTo t x).freeQueue = s.freeQueue := rfl

@[simp] theorem moveTo_pendingReadQueue :
    (s.moveTo t x).pendingReadQueue = s.pendingReadQueue := rfl

@[simp] theorem moveTo_freeRequestTokenQueue :
    (s.moveTo t x).freeRequestTokenQueue = s.freeRequestTokenQueue := rfl

@[simp] theorem moveTo_threads : (s.moveTo t x).threads = Function.update s.threads t x := rfl

@[simp] theorem moveTo_acceptedReads : (s.moveTo t x).acceptedReads = s.acceptedReads := rfl

@[simp] theorem moveTo_readBuffer : (s.moveTo t x).readBuffer = s.readBuffer := rfl

@[simp] theorem moveTo_callbackRuns : (s.moveTo t x).callbackRuns = s.callbackRuns := rfl

end MoveTo

/-- A call of `read` that does not get a buffer at once. -/
def readCall (s : PoolState Thread) (t : Thread) (remoteIndex : ℕ) (hasCallback : Bool) :
    Option (PoolState Thread) :=
  match s.threads t with
  | .idle => some (s.moveTo t (.spinning remoteIndex hasCallback))
  | _ => none

/-- The first queue operation of `read`, at once or after spinning: dequeue a free buffer, then fill
in the remote index and the callback. -/
def readDequeueFree (s : PoolState Thread) (t : Thread) (i remoteIndex : ℕ) (hasCallback : Bool) :
    Option (PoolState Thread) :=
  if s.threads t = .idle ∨ s.threads t = .spinning remoteIndex hasCallback then
    (dequeueAt s.freeQueue i).map fun (d, rest) =>
      let callback := if hasCallback then some s.acceptedReads else none
      { s with
        freeQueue := rest
        acceptedReads := s.acceptedReads + 1
        readBuffer := if hasCallback
          then Function.update s.readBuffer s.acceptedReads (some d.data) else s.readBuffer
        }.moveTo t (.acquired { d with remoteIndex := remoteIndex, callback := callback })
  else none

/-- `RDMAData::read`: `get_request_token` panics when its queue is empty, otherwise it resets the
token it dequeued, and the read is posted with it. -/
def readPost (s : PoolState Thread) (t : Thread) (i : ℕ) : Option (PoolState Thread) :=
  match s.threads t with
  | .acquired d =>
      if s.freeRequestTokenQueue.isEmpty then
        some { s with panicked := true }
      else
        (dequeueAt s.freeRequestTokenQueue i).map fun (token, rest) =>
          { s with
            freeRequestTokenQueue := rest
            completed := Function.update s.completed token false
            }.moveTo t (.posted { d with token := some token })
  | _ => none

/-- The last queue operation of `read`. -/
def readEnqueuePending (s : PoolState Thread) (t : Thread) : Option (PoolState Thread) :=
  match s.threads t with
  | .posted d => some ({ s with pendingReadQueue := s.pendingReadQueue ++ [d] }.moveTo t .idle)
  | _ => none

/-- The network card completes a read; only tokens that are in use can complete. -/
def readCompletes (s : PoolState Thread) (token : ℕ) : Option (PoolState Thread) :=
  if token ∈ s.freeRequestTokenQueue then none
  else some { s with completed := Function.update s.completed token true }

/-- The dequeue at the head of the loop of `execute_pending`. -/
def executeDequeuePending (s : PoolState Thread) (t : Thread) (i : ℕ) :
    Option (PoolState Thread) :=
  match s.threads t with
  | .idle =>
      (dequeueAt s.pendingReadQueue i).map fun (d, rest) =>
        { s with pendingReadQueue := rest }.moveTo t (.dequeued d)
  | _ => none

/-- `waitUntilCompleted`, then the callback on the buffer, unless the function is empty. -/
def executeCallback (s : PoolState Thread) (t : Thread) : Option (PoolState Thread) :=
  match s.threads t with
  | .dequeued d =>
      match d.token with
      | none => none
      | some token =>
          if s.completed token then
            some ({ s with
              callbackRuns := match d.callback with
                | none => s.callbackRuns
                | some r => s.callbackRuns ++ [(r, d.data)]
              }.moveTo t (.calledBack d))
          else none
  | _ => none

/-- `free_request_token(std::move(data_with_request_token.token))`: the local variable keeps a
null token. -/
def executeFreeRequestToken (s : PoolState Thread) (t : Thread) : Option (PoolState Thread) :=
  match s.threads t with
  | .calledBack d =>
      match d.token with
      | none => none
      | some token =>
          some ({ s with
            freeRequestTokenQueue := s.freeRequestTokenQueue ++ [token]
            }.moveTo t (.tokenFreed { d with token := none }))
  | _ => none

/-- `free_queue.enqueue(std::move(data_with_request_token))`. -/
def executeEnqueueFree (s : PoolState Thread) (t : Thread) : Option (PoolState Thread) :=
  match s.threads t with
  | .tokenFreed d => some ({ s with freeQueue := s.freeQueue ++ [d] }.moveTo t .idle)
  | _ => none

/-- One move of the pool; a panicked process makes none. -/
def poolStep (s : PoolState Thread) (l : PoolLabel Thread) : Option (PoolState Thread) :=
  if s.panicked then none
  else match l with
    | .readCall t remoteIndex hasCallback => readCall s t remoteIndex hasCallback
    | .readDequeueFree t i remoteIndex hasCallback =>
        readDequeueFree s t i remoteIndex hasCallback
    | .readPost t i => readPost s t i
    | .readEnqueuePending t => readEnqueuePending s t
    | .readCompletes token => readCompletes s token
    | .executeDequeuePending t i => executeDequeuePending s t i
    | .executeCallback t => executeCallback s t
    | .executeFreeRequestToken t => executeFreeRequestToken s t
    | .executeEnqueueFree t => executeEnqueueFree s t

end TwigKV.ReadPool
