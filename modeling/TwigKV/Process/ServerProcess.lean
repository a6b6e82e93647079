import TwigKV.ReadPool.PoolCompletion
import TwigKV.Server.RequestCompletion

/-! # A server process with its read pool (`ldc.cpp`)

The model of a server thread lists the slot reads it has under way and completes any of them in one
step. The program has no such list: `RDMAKeyValueCache::read_callback` passes the callback to
`RDMADataWithQueue::read`, where it travels with its data buffer through two queues and the hands of
two threads until a completion worker runs it. All server threads share one pool, which the workers
started by `main` empty.

* **`ProcessState`** — the server threads without their lists, the pool, and what each accepted
  read's callback has captured;
* **`processStep`** — a handler enters the pool with `read` (one that would find no free buffer and
  spin there has not begun yet), a callback leaves it for the thread it was captured on;
* **`serverOf`** — a thread with its list put back: the callbacks of its reads that have not run. -/

namespace TwigKV.Process

open TwigKV.Server TwigKV.ReadPool

/-! ## The reads of a handler -/

/-- The slot read that an effect posts. -/
def slotReadOf : ServerEffect → Option SlotRead
  | .readSlot read => some read
  | _ => none

/-- The slot reads that a handler posts. -/
def slotReads (effects : List ServerEffect) : List SlotRead := effects.filterMap slotReadOf

/-- What else it does. -/
def ownEffects (effects : List ServerEffect) : List ServerEffect :=
  effects.filter fun effect => (slotReadOf effect).isNone

/-- A thread with a list of slot reads under way. -/
def withReads (st : ServerState) (reads : List SlotRead) : ServerState :=
  { st with pendingReads := reads }

/-- The label is a callback of a slot read: the pool's workers run it. -/
def isSlotCallback : ServerLabel → Bool
  | .slotReadCompleted _ _ _ => true
  | _ => false

/-- The step is one of the thread's own loop; the others are those of the poller and the
database. -/
def inLoop : ServerLabel → Bool
  | .receiveGet _ _ _ _ | .receivePut _ _ _ | .receiveSingletonPut _ _ _ _ | .receiveDelete _
  | .sendRdmaGetResponse _ | .sendBlockCacheRequest _ | .sendSingletonPutRequest _ => true
  | .slotReadCompleted _ _ _ | .blockReadCompleted _ _ | .diskReadCompleted _ _ => false

/-- The label is a get request, the only one whose handler reads a slot. -/
def readsSlot : ServerLabel → Bool
  | .receiveGet _ _ _ _ => true
  | _ => false

/-! ## The process -/

/-- A server process: server threads `S` and completion workers `W`. -/
structure ProcessState (S W : Type) where
  /-- The server threads; their lists of slot reads stay empty. -/
  servers : S → ServerState
  /-- The read pool. -/
  pool : PoolState (S ⊕ W)
  /-- What the callback of each accepted read has captured: its thread and its read. -/
  callbacks : ℕ → Option (S × SlotRead)

variable {S W : Type}

/-- A process that has just started. -/
def ProcessState.init (S W : Type) (queueSize tokenQueueSize : ℕ) : ProcessState S W where
  servers := fun _ => .initial
  pool := .init (S ⊕ W) queueSize tokenQueueSize
  callbacks := fun _ => none

/-- What happens next in a process. -/
inductive ProcessLabel (S W : Type) where
  /-- A step of a server thread's loop, of the poller or of the database; a slot read it posts takes
  the free buffer at position `i`. -/
  | serverMoves (t : S) (label : ServerLabel) (i : ℕ)
  /-- A queue operation of the pool, or a completion of the network card. -/
  | poolMoves (label : PoolLabel (S ⊕ W))
  /-- A worker runs a callback, with the content of the slot. -/
  | executeCallback (w : W) (kv : RDMACacheIndexKeyValue) (answers : CallbackAnswers)

/-- Server threads call `read`, workers call `execute_pending`. Where `read` begins and where the
callback runs, other parts of the process take part. -/
def inPool : PoolLabel (S ⊕ W) → Bool
  | .readPost (.inl _) _ | .readEnqueuePending (.inl _) | .readCompletes _ => true
  | .executeDequeuePending (.inr _) _ | .executeFreeRequestToken (.inr _)
  | .executeEnqueueFree (.inr _) => true
  | _ => false

variable [DecidableEq S] [DecidableEq W]

/-- A handler posts a slot read: the pool accepts it with its callback. -/
def acceptRead (s : ProcessState S W) (t : S) (i : ℕ) (read : SlotRead) :
    Option (ProcessState S W) :=
  (poolStep s.pool (.readDequeueFree (.inl t) i read.remoteIndex true)).map fun pool =>
    { s with
      pool := pool
      callbacks := Function.update s.callbacks s.pool.acceptedReads (some (t, read)) }

/-- The reads of a handler in order. -/
def acceptReads (s : ProcessState S W) (t : S) (i : ℕ) : List SlotRead → Option (ProcessState S W)
  | [] => some s
  | read :: reads => (acceptRead s t i read).bind fun s' => acceptReads s' t i reads

/-- Thread `t` becomes `st`. -/
def ProcessState.setServer (s : ProcessState S W) (t : S) (st : ServerState) : ProcessState S W :=
  { s with servers := Function.update s.servers t st }

/-- The callback of read `r` runs, unless there is none. -/
def runCallback (config : S → ServerConfig) (s : ProcessState S W) (r : Option ℕ)
    (kv : RDMACacheIndexKeyValue) (answers : CallbackAnswers) : Option (ProcessState S W) :=
  match r.bind s.callbacks with
  | none => some s
  | some (t, read) =>
      (slotCallback (config t) read kv answers).map fun effects =>
        s.setServer t (applyEffects (s.servers t) (ownEffects effects))

/-- One step of a process: `none` where the label is not enabled or the program stops. -/
def processStep (config : S → ServerConfig) (s : ProcessState S W) :
    ProcessLabel S W → Option (ProcessState S W)
  | .serverMoves t label i =>
      -- a thread inside `read` does not come back to its loop
      if isSlotCallback label || (inLoop label && s.pool.threads (.inl t) ≠ .idle) then none
      else
        (serverMove (config t) (s.servers t) label).bind fun move =>
          (acceptReads s t i (slotReads move.2)).map fun s' =>
            s'.setServer t (applyEffects move.1 (ownEffects move.2))
  | .poolMoves label =>
      if inPool label then (poolStep s.pool label).map fun pool => { s with pool := pool } else none
  | .executeCallback w kv answers =>
      (poolStep s.pool (.executeCallback (.inr w))).bind fun pool =>
        runCallback config { s with pool := pool } (s.pool.threads (.inr w)).waitingRead kv answers

/-! ## The threads' lists -/

/-- The reads of thread `t` whose callbacks have not run, in the order in which they were
accepted. -/
def outstanding (s : ProcessState S W) (t : S) : List SlotRead :=
  (List.range s.pool.acceptedReads).filterMap fun r =>
    if s.pool.runsOf r = 0 then
      (s.callbacks r).bind fun owner => if owner.1 = t then some owner.2 else none
    else none

/-- Thread `t` with its reads under way. -/
def serverOf (s : ProcessState S W) (t : S) : ServerState :=
  withReads (s.servers t) (outstanding s t)

end TwigKV.Process
