import TwigKV.CacheIndexLog.LogEntries
import TwigKV.Foundations.DoubleUpdate
import TwigKV.Foundations.LabelledRun
import TwigKV.Foundations.QueueCensus
import TwigKV.Rdma.QueuePairs

/-! # Direct propagation of the cache index (`CacheIndexes`)

Without the logs a server announces a change of its own index by writing the entry into the replicas
of its peers: `write_remote` and `dealloc_remote` post one RDMA write for each peer, with a token of
`free_request_token_queue` that goes to `pending_write_queue` and comes back when a worker's
`execute_pending` has waited for the write.

The model follows the calling threads of one server, the owner, through the loops of the two
functions, and the workers through `execute_pending`. The writes of a queue pair execute in the
order they were posted; a write copies the bytes that its local entry holds when it executes. Its
target is whatever region `connect` has put behind the queue pair. -/

namespace TwigKV.CacheIndexes

open TwigKV.CacheIndexLog TwigKV.Rdma

variable {RDMACacheIndex Caller Worker : Type*}

/-- `FreeRequestTokenQueueSize`. -/
def freeRequestTokenQueueSize : ℕ := 50000

/-- The constants and the field of the cache library that `CacheIndexes` uses. -/
structure IndexConstants (RDMACacheIndex : Type*) extends LogConstants RDMACacheIndex where
  /-- `key_value_ptr_offset` of an index entry. -/
  keyValuePtrOffset : RDMACacheIndex → UInt64

/-- The two functions that announce a change. -/
inductive IndexCall where
  /-- `write_remote`. -/
  | writeRemote
  /-- `dealloc_remote`. -/
  | deallocRemote
deriving DecidableEq, Repr

/-- Where a calling thread stands. -/
inductive CallerPc where
  /-- Between two calls. -/
  | idle
  /-- At the head of the loop over the servers, about to look at server `i`. -/
  | calling (call : IndexCall) (keyIndex : UInt64) (i : ℕ)
  /-- The write to server `i` has been posted with a token that is not in `pending_write_queue`
  yet. -/
  | posted (call : IndexCall) (keyIndex : UInt64) (i token : ℕ)
deriving DecidableEq, Repr

/-- An RDMA write of one index entry that has been posted. -/
structure PostedWrite where
  /-- The entry: `key_index`, which gives the local and the remote offset. -/
  keyIndex : UInt64
  /-- Its token. -/
  token : ℕ
deriving DecidableEq, Repr

/-- The panics of the two functions. -/
inductive IndexPanic where
  /-- "Invalid key value ptr offset". -/
  | invalidPtr
  /-- "Free request token queue out of tokens!". -/
  | outOfTokens
deriving DecidableEq, Repr

/-- The index buffers of all servers and what the owner has under way. -/
structure IndexesState (RDMACacheIndex Caller Worker : Type*) where
  /-- `indexes server owner`: the copy of the owner's index at a server. -/
  indexes : ℕ → ℕ → CacheIndex RDMACacheIndex
  /-- `free_request_token_queue`. -/
  freeRequestTokenQueue : List ℕ
  /-- `pending_write_queue`. -/
  pendingWriteQueue : List ℕ
  /-- The writes of every queue pair of `connect_qps` that have not executed, oldest first. -/
  postedWrites : ℕ → List PostedWrite
  /-- Which tokens' writes have executed. -/
  completed : ℕ → Bool
  /-- The calling threads. -/
  callers : Caller → CallerPc
  /-- The token every worker waits for. -/
  workers : Worker → Option ℕ
  /-- The workers have been started, which happens after the preload. -/
  workersStarted : Bool
  /-- The panic that has stopped the process. -/
  panic : Option IndexPanic
  /-- Ghost: the keys that have been written or deallocated. -/
  touched : List UInt64

/-- The state after construction. -/
def IndexesState.initial (indexes : ℕ → ℕ → CacheIndex RDMACacheIndex) :
    IndexesState RDMACacheIndex Caller Worker where
  indexes := indexes
  freeRequestTokenQueue := List.range freeRequestTokenQueueSize
  pendingWriteQueue := []
  postedWrites := fun _ => []
  completed := fun _ => false
  callers := fun _ => .idle
  workers := fun _ => none
  workersStarted := false
  panic := none
  touched := []

/-- Who moves. A position says which element a dequeue hands out. -/
inductive IndexLabel (RDMACacheIndex Caller Worker : Type*) where
  /-- The owner's entry of a key becomes `entry`, and the thread calls one of the two functions. -/
  | beginCall (t : Caller) (call : IndexCall) (keyIndex : UInt64) (entry : RDMACacheIndex)
  /-- The thread goes on in the loop, up to the next post. -/
  | callStep (t : Caller) (position : ℕ)
  /-- The thread puts the token of its write in `pending_write_queue`. -/
  | enqueuePending (t : Caller)
  /-- The oldest write of a queue pair executes. -/
  | completeWrite (rdmaIndex : ℕ)
  /-- The workers are started. -/
  | startWorkers
  /-- A worker takes a token from `pending_write_queue`. -/
  | drainDequeue (w : Worker) (position : ℕ)
  /-- Its wait ends and the token goes back to `free_request_token_queue`. -/
  | drainFree (w : Worker)

variable [DecidableEq Caller] [DecidableEq Worker]

/-- The owner's entry of a key is changed. -/
def setOwnEntry (m : ℕ) (s : IndexesState RDMACacheIndex Caller Worker) (keyIndex : UInt64)
    (entry : RDMACacheIndex) : IndexesState RDMACacheIndex Caller Worker :=
  { s with indexes := update₂ s.indexes m m (Function.update (s.indexes m m) keyIndex entry) }

/-- Thread `t` moves on. -/
def IndexesState.moveTo (s : IndexesState RDMACacheIndex Caller Worker) (t : Caller)
    (pc : CallerPc) : IndexesState RDMACacheIndex Caller Worker :=
  { s with callers := Function.update s.callers t pc }

omit [DecidableEq Worker] in
/-- The thread that moves is where it moves to. -/
theorem moveTo_callers_self (s : IndexesState RDMACacheIndex Caller Worker) (t : Caller)
    (pc : CallerPc) : (s.moveTo t pc).callers t = pc :=
  Function.update_self _ _ _

/-- The loop body before the write: `write_remote` panics on an invalid entry, `dealloc_remote`
makes the entry invalid. -/
def prepareEntry (consts : IndexConstants RDMACacheIndex) (m : ℕ)
    (s : IndexesState RDMACacheIndex Caller Worker) (call : IndexCall) (keyIndex : UInt64) :
    Option (IndexesState RDMACacheIndex Caller Worker) :=
  match call with
  | .writeRemote =>
      if consts.keyValuePtrOffset (s.indexes m m keyIndex) = consts.keyValuePtrInvalid then none
      else some s
  | .deallocRemote => some (setOwnEntry m s keyIndex consts.invalidRDMACacheIndex)

/-- The state after a write has been posted. -/
def postedState (numServers m : ℕ) (s : IndexesState RDMACacheIndex Caller Worker) (t : Caller)
    (call : IndexCall) (keyIndex : UInt64) (i token : ℕ) (rest : List ℕ) :
    IndexesState RDMACacheIndex Caller Worker :=
  { s with
    freeRequestTokenQueue := rest
    completed := Function.update s.completed token false
    postedWrites := Function.update s.postedWrites (m * numServers + i)
      (s.postedWrites (m * numServers + i) ++ [PostedWrite.mk keyIndex token])
    }.moveTo t (.posted call keyIndex i token)

/-- `RDMAData::write`: `get_request_token` panics when its queue is empty; otherwise the write is
posted on the queue pair `m * n + i`. -/
def postWrite (numServers m : ℕ) (s : IndexesState RDMACacheIndex Caller Worker) (t : Caller)
    (call : IndexCall) (keyIndex : UInt64) (i position : ℕ) :
    Option (IndexesState RDMACacheIndex Caller Worker) :=
  -- no access outside the table of queue pairs
  if (connectQps numServers)[m * numServers + i]? = none then none
  else if s.freeRequestTokenQueue = [] then some { s with panic := some .outOfTokens }
  else
    (dequeueAt s.freeRequestTokenQueue position).map fun (token, rest) =>
      postedState numServers m s t call keyIndex i token rest

/-- The loop of `write_remote` and `dealloc_remote` for server `i`. -/
def callStep (consts : IndexConstants RDMACacheIndex) (numServers m : ℕ)
    (s : IndexesState RDMACacheIndex Caller Worker) (t : Caller) (position : ℕ) :
    Option (IndexesState RDMACacheIndex Caller Worker) :=
  match s.callers t with
  | .calling call keyIndex i =>
      if i < numServers then
        if m = i then some (s.moveTo t (.calling call keyIndex (i + 1)))
        else
          match prepareEntry consts m s call keyIndex with
          | none => some { s with panic := some .invalidPtr }
          | some prepared => postWrite numServers m prepared t call keyIndex i position
      else some (s.moveTo t .idle)
  | _ => none

/-- The RDMA write of an entry of the owner's index into a region. -/
def writeEntry (m : ℕ) (s : IndexesState RDMACacheIndex Caller Worker) (rdmaIndex : ℕ)
    (write : PostedWrite) (rest : List PostedWrite) (region : Region) :
    IndexesState RDMACacheIndex Caller Worker :=
  { s with
    indexes := update₂ s.indexes region.server region.port
      (Function.update (s.indexes region.server region.port) write.keyIndex
        (s.indexes m m write.keyIndex))
    postedWrites := Function.update s.postedWrites rdmaIndex rest
    completed := Function.update s.completed write.token true }

/-- One step of the owner: `none` where the label is not enabled or the process has panicked. -/
def indexStep (consts : IndexConstants RDMACacheIndex) (numServers m : ℕ)
    (s : IndexesState RDMACacheIndex Caller Worker)
    (label : IndexLabel RDMACacheIndex Caller Worker) :
    Option (IndexesState RDMACacheIndex Caller Worker) :=
  if s.panic.isSome then none
  else match label with
    | .beginCall t call keyIndex entry =>
        if s.callers t = .idle then
          some ({ setOwnEntry m s keyIndex entry with touched := s.touched ++ [keyIndex] }.moveTo t
            (.calling call keyIndex 0))
        else none
    | .callStep t position => callStep consts numServers m s t position
    | .enqueuePending t =>
        match s.callers t with
        | .posted call keyIndex i token =>
            some ({ s with pendingWriteQueue := s.pendingWriteQueue ++ [token] }.moveTo t
              (.calling call keyIndex (i + 1)))
        | _ => none
    | .completeWrite rdmaIndex =>
        match s.postedWrites rdmaIndex with
        | write :: rest =>
            (connectQps numServers)[rdmaIndex]?.map (writeEntry m s rdmaIndex write rest)
        | [] => none
    | .startWorkers => some { s with workersStarted := true }
    | .drainDequeue w position =>
        if s.workersStarted ∧ s.workers w = none then
          (dequeueAt s.pendingWriteQueue position).map fun (token, rest) =>
            { s with
              pendingWriteQueue := rest
              workers := Function.update s.workers w (some token) }
        else none
    | .drainFree w =>
        match s.workers w with
        | some token =>
            -- until then the worker goes on waiting
            if s.completed token then
              some { s with
                freeRequestTokenQueue := s.freeRequestTokenQueue ++ [token]
                workers := Function.update s.workers w none }
            else none
        | none => none

/-! ## The moves of a step -/

/-- What a step of the owner can do: one constructor for every way a label is enabled. -/
inductive IndexMove (consts : IndexConstants RDMACacheIndex) (numServers m : ℕ)
    (s : IndexesState RDMACacheIndex Caller Worker) :
    IndexLabel RDMACacheIndex Caller Worker → IndexesState RDMACacheIndex Caller Worker → Prop
  /-- A call begins. -/
  | beginCall {t : Caller} {call : IndexCall} {keyIndex : UInt64} {entry : RDMACacheIndex}
      (hpc : s.callers t = .idle) :
      IndexMove consts numServers m s (.beginCall t call keyIndex entry)
        ({ setOwnEntry m s keyIndex entry with touched := s.touched ++ [keyIndex] }.moveTo t
          (.calling call keyIndex 0))
  /-- The loop skips the owner. -/
  | skipOwner {t : Caller} {position : ℕ} {call : IndexCall} {keyIndex : UInt64}
      (hpc : s.callers t = .calling call keyIndex m) :
      IndexMove consts numServers m s (.callStep t position)
        (s.moveTo t (.calling call keyIndex (m + 1)))
  /-- `write_remote` finds an invalid entry. -/
  | invalidPtr {t : Caller} {position : ℕ} :
      IndexMove consts numServers m s (.callStep t position) { s with panic := some .invalidPtr }
  /-- There is no token for the write. -/
  | outOfTokens {t : Caller} {position : ℕ} {call : IndexCall} {keyIndex : UInt64} {i : ℕ}
      {prepared : IndexesState RDMACacheIndex Caller Worker}
      (hpc : s.callers t = .calling call keyIndex i) (hi : i < numServers) (hne : m ≠ i)
      (hprepare : prepareEntry consts m s call keyIndex = some prepared)
      (hempty : s.freeRequestTokenQueue = []) :
      IndexMove consts numServers m s (.callStep t position)
        { prepared with panic := some .outOfTokens }
  /-- The write is posted. -/
  | post {t : Caller} {position : ℕ} {call : IndexCall} {keyIndex : UInt64} {i token : ℕ}
      {rest : List ℕ} {prepared : IndexesState RDMACacheIndex Caller Worker}
      (hpc : s.callers t = .calling call keyIndex i) (hi : i < numServers) (hne : m ≠ i)
      (hprepare : prepareEntry consts m s call keyIndex = some prepared)
      (htoken : dequeueAt s.freeRequestTokenQueue position = some (token, rest)) :
      IndexMove consts numServers m s (.callStep t position)
        (postedState numServers m prepared t call keyIndex i token rest)
  /-- The loop is over. -/
  | finish {t : Caller} {position : ℕ} {call : IndexCall} {keyIndex : UInt64} {i : ℕ}
      (hpc : s.callers t = .calling call keyIndex i) (hi : numServers ≤ i) :
      IndexMove consts numServers m s (.callStep t position) (s.moveTo t .idle)
  /-- The token of a write goes to `pending_write_queue`. -/
  | enqueuePending {t : Caller} {call : IndexCall} {keyIndex : UInt64} {i token : ℕ}
      (hpc : s.callers t = .posted call keyIndex i token) :
      IndexMove consts numServers m s (.enqueuePending t)
        ({ s with pendingWriteQueue := s.pendingWriteQueue ++ [token] }.moveTo t
          (.calling call keyIndex (i + 1)))
  /-- A write executes. -/
  | completeWrite {rdmaIndex : ℕ} {write : PostedWrite} {rest : List PostedWrite}
      {region : Region} (hposted : s.postedWrites rdmaIndex = write :: rest)
      (hregion : (connectQps numServers)[rdmaIndex]? = some region) :
      IndexMove consts numServers m s (.completeWrite rdmaIndex)
        (writeEntry m s rdmaIndex write rest region)
  /-- The workers are started. -/
  | startWorkers :
      IndexMove consts numServers m s .startWorkers { s with workersStarted := true }
  /-- A worker takes a token. -/
  | drainDequeue {w : Worker} {position token : ℕ} {rest : List ℕ}
      (hstarted : s.workersStarted = true) (hworker : s.workers w = none)
      (hpending : dequeueAt s.pendingWriteQueue position = some (token, rest)) :
      IndexMove consts numServers m s (.drainDequeue w position)
        { s with
          pendingWriteQueue := rest
          workers := Function.update s.workers w (some token) }
  /-- A worker gives its token back. -/
  | drainFree {w : Worker} {token : ℕ} (hworker : s.workers w = some token) :
      IndexMove consts numServers m s (.drainFree w)
        { s with
          freeRequestTokenQueue := s.freeRequestTokenQueue ++ [token]
          workers := Function.update s.workers w none }

omit [DecidableEq Caller] [DecidableEq Worker] in
/-- Preparing an entry leaves everything but the owner's index as it is. -/
theorem prepareEntry_eq {consts : IndexConstants RDMACacheIndex} {m : ℕ}
    {s prepared : IndexesState RDMACacheIndex Caller Worker} {call : IndexCall}
    {keyIndex : UInt64} (h : prepareEntry consts m s call keyIndex = some prepared) :
    prepared = match call with
      | .writeRemote => s
      | .deallocRemote => setOwnEntry m s keyIndex consts.invalidRDMACacheIndex := by
  cases call with
  | writeRemote =>
    rw [prepareEntry] at h
    split at h
    · cases h
    · exact (Option.some.inj h).symm
  | deallocRemote => exact (Option.some.inj h).symm

omit [DecidableEq Caller] [DecidableEq Worker] in
/-- In particular the queues, the threads and the history. -/
theorem prepareEntry_frame {consts : IndexConstants RDMACacheIndex} {m : ℕ}
    {s prepared : IndexesState RDMACacheIndex Caller Worker} {call : IndexCall}
    {keyIndex : UInt64} (h : prepareEntry consts m s call keyIndex = some prepared) :
    prepared = { s with indexes := prepared.indexes } := by
  rw [prepareEntry_eq h]
  cases call <;> rfl

/-- A step of the loop is one of the moves. -/
theorem callStep_cases {consts : IndexConstants RDMACacheIndex} {numServers m : ℕ}
    {s s' : IndexesState RDMACacheIndex Caller Worker} {t : Caller} {position : ℕ}
    (h : callStep consts numServers m s t position = some s') :
    IndexMove consts numServers m s (.callStep t position) s' := by
  unfold callStep at h
  split at h
  · next call keyIndex i hpc =>
    split at h
    · next hi =>
      split at h
      · next hm =>
        subst hm
        cases h
        exact .skipOwner hpc
      · next hne =>
        split at h
        · cases h
          exact .invalidPtr
        · next prepared hprepare =>
          -- preparing the entry leaves the token queue as it is
          have hframe := prepareEntry_frame hprepare
          have hfree : prepared.freeRequestTokenQueue = s.freeRequestTokenQueue := by rw [hframe]
          simp only [postWrite] at h
          split at h
          · cases h
          · split at h
            · next hempty =>
              cases h
              exact .outOfTokens hpc hi hne hprepare (by rw [← hfree]; exact hempty)
            · rw [Option.map_eq_some_iff] at h
              obtain ⟨⟨token, rest⟩, htoken, rfl⟩ := h
              rw [hfree] at htoken
              exact .post hpc hi hne hprepare htoken
    · next hi =>
      cases h
      exact .finish hpc (Nat.not_lt.mp hi)
  · cases h

/-- Every step is one of the moves, and it is made by a process that has not panicked. -/
theorem indexStep_cases {consts : IndexConstants RDMACacheIndex} {numServers m : ℕ}
    {s s' : IndexesState RDMACacheIndex Caller Worker}
    {label : IndexLabel RDMACacheIndex Caller Worker}
    (h : indexStep consts numServers m s label = some s') :
    s.panic = none ∧ IndexMove consts numServers m s label s' := by
  unfold indexStep at h
  split at h
  · cases h
  · next hrunning =>
    refine ⟨by simpa using hrunning, ?_⟩
    cases label with
    | beginCall t call keyIndex entry =>
      simp only at h
      split at h
      · next hpc =>
        cases h
        exact .beginCall hpc
      · cases h
    | callStep t position => exact callStep_cases h
    | enqueuePending t =>
      simp only at h
      split at h
      · next hpc =>
        cases h
        exact .enqueuePending hpc
      · cases h
    | completeWrite rdmaIndex =>
      simp only at h
      split at h
      · next hposted =>
        rw [Option.map_eq_some_iff] at h
        obtain ⟨region, hregion, rfl⟩ := h
        exact .completeWrite hposted hregion
      · cases h
    | startWorkers =>
      cases h
      exact .startWorkers
    | drainDequeue w position =>
      simp only at h
      split at h
      · next hfree =>
        rw [Option.map_eq_some_iff] at h
        obtain ⟨⟨token, rest⟩, hpending, rfl⟩ := h
        exact .drainDequeue hfree.1 hfree.2 hpending
      · cases h
    | drainFree w =>
      simp only at h
      split at h
      · next hworker =>
        split at h
        · cases h
          exact .drainFree hworker
        · cases h
      · cases h

/-- The token queue is not empty after construction. -/
theorem range_freeRequestTokenQueueSize :
    List.range freeRequestTokenQueueSize = 0 :: List.range' 1 49999 := by
  rw [freeRequestTokenQueueSize, List.range_eq_range']
  exact List.range'_succ

omit [DecidableEq Caller] [DecidableEq Worker] in
/-- The state after construction, with its first token visible. -/
theorem initial_eq_firstToken (indexes : ℕ → ℕ → CacheIndex RDMACacheIndex) :
    ({ (.initial indexes : IndexesState RDMACacheIndex Caller Worker) with
      freeRequestTokenQueue := 0 :: List.range' 1 49999 }) = .initial indexes := by
  rw [← range_freeRequestTokenQueueSize]
  rfl

/-- Index entries that are offsets only. -/
def offsetConsts : IndexConstants UInt64 where
  keyValuePtrInvalid := -1
  invalidRDMACacheIndex := -1
  keyValuePtrOffset := id

end TwigKV.CacheIndexes
