import TwigKV.CacheIndexes.IndexMachine

/-! # Request tokens of the index writes

`FreeRequestTokenQueueSize` tokens circulate between `free_request_token_queue`, the calling
threads, `pending_write_queue` and the workers (`IndexesState.tokens_conserved`).
`get_request_token` panics when it finds its queue empty, so a run is free of that panic exactly
when every write is posted with fewer than `FreeRequestTokenQueueSize` tokens outside the queue
(`tokens_suffice_iff`).

Nothing makes it so: the callers do not wait, and the preload runs before there are workers
(`preload_outOfTokens`). -/

namespace TwigKV.CacheIndexes

open TwigKV.CacheIndexLog TwigKV.Rdma

variable {RDMACacheIndex Caller Worker : Type*}

/-- The tokens in a calling thread's hands. -/
def CallerPc.tokens : CallerPc → ℕ
  | .posted _ _ _ _ => 1
  | .idle | .calling _ _ _ => 0

/-- The tokens in a worker's hands. -/
def workerTokens : Option ℕ → ℕ
  | some _ => 1
  | none => 0

section Conservation

variable [Fintype Caller] [Fintype Worker]

/-- The writes whose token has not come back. -/
def IndexesState.undrained (s : IndexesState RDMACacheIndex Caller Worker) : ℕ :=
  s.pendingWriteQueue.length + heldWeight CallerPc.tokens s.callers
    + heldWeight workerTokens s.workers

/-- A write is posted while fewer than `FreeRequestTokenQueueSize` writes are undrained. -/
def WritesDrained (consts : IndexConstants RDMACacheIndex) (numServers m : ℕ)
    (s : IndexesState RDMACacheIndex Caller Worker) :
    IndexLabel RDMACacheIndex Caller Worker → Prop
  | .callStep t _ => ∀ call keyIndex i, s.callers t = .calling call keyIndex i →
      i < numServers → m ≠ i → prepareEntry consts m s call keyIndex ≠ none →
      s.undrained < freeRequestTokenQueueSize
  | _ => True

/-- Every token is in the free queue or belongs to an undrained write. -/
def IndexesState.Conserved (s : IndexesState RDMACacheIndex Caller Worker) : Prop :=
  s.freeRequestTokenQueue.length + s.undrained = freeRequestTokenQueueSize

/-- A dequeue shortens the queue by one. -/
theorem length_of_dequeueAt {α : Type*} {q q' : List α} {i : ℕ} {a : α}
    (h : dequeueAt q i = some (a, q')) : q.length = q'.length + 1 :=
  (dequeueAt_perm h).length_eq

/-- After construction all tokens are free. -/
theorem conserved_initial (indexes : ℕ → ℕ → CacheIndex RDMACacheIndex) :
    (.initial indexes : IndexesState RDMACacheIndex Caller Worker).Conserved := by
  have hcallers : heldWeight CallerPc.tokens (fun _ : Caller => CallerPc.idle) = 0 :=
    heldWeight_const_zero rfl
  have hworkers : heldWeight workerTokens (fun _ : Worker => none) = 0 :=
    heldWeight_const_zero rfl
  rw [IndexesState.Conserved, IndexesState.undrained, IndexesState.initial, List.length_range,
    List.length_nil, hcallers, hworkers, add_zero, add_zero, add_zero]

variable [DecidableEq Caller] [DecidableEq Worker] {consts : IndexConstants RDMACacheIndex}
  {numServers m : ℕ} {s s' : IndexesState RDMACacheIndex Caller Worker}
  {label : IndexLabel RDMACacheIndex Caller Worker}

omit [DecidableEq Worker] in
/-- A calling thread moves tokens between its hands and the queues. -/
theorem IndexesState.Conserved.of_caller (h : s.Conserved) {t : Caller} {pc : CallerPc}
    (hcallers : s'.callers = Function.update s.callers t pc) (hworkers : s'.workers = s.workers)
    (hqueues : s'.freeRequestTokenQueue.length + s'.pendingWriteQueue.length + pc.tokens
      = s.freeRequestTokenQueue.length + s.pendingWriteQueue.length + (s.callers t).tokens) :
    s'.Conserved := by
  have hupd := heldWeight_update CallerPc.tokens s.callers t pc
  unfold IndexesState.Conserved IndexesState.undrained at h ⊢
  rw [hcallers, hworkers]
  omega

omit [DecidableEq Caller] in
/-- A worker moves tokens between its hands and the queues. -/
theorem IndexesState.Conserved.of_worker (h : s.Conserved) {w : Worker} {held : Option ℕ}
    (hcallers : s'.callers = s.callers) (hworkers : s'.workers = Function.update s.workers w held)
    (hqueues : s'.freeRequestTokenQueue.length + s'.pendingWriteQueue.length + workerTokens held
      = s.freeRequestTokenQueue.length + s.pendingWriteQueue.length
        + workerTokens (s.workers w)) :
    s'.Conserved := by
  have hupd := heldWeight_update workerTokens s.workers w held
  unfold IndexesState.Conserved IndexesState.undrained at h ⊢
  rw [hcallers, hworkers]
  omega

/-- Every step keeps the number of tokens. -/
theorem IndexesState.Conserved.step (h : s.Conserved)
    (hs : indexStep consts numServers m s label = some s') : s'.Conserved := by
  obtain ⟨-, hmove⟩ := indexStep_cases hs
  cases hmove with
  | beginCall hpc =>
    refine h.of_caller rfl rfl ?_
    rw [hpc]
    rfl
  | skipOwner hpc =>
    refine h.of_caller rfl rfl ?_
    rw [hpc]
    rfl
  | invalidPtr => exact h
  | outOfTokens hpc hi hne hprepare hempty =>
    rw [prepareEntry_frame hprepare]
    exact h
  | @post t position call keyIndex i token rest prepared hpc hi hne hprepare htoken =>
    have hlength := length_of_dequeueAt htoken
    rw [prepareEntry_frame hprepare]
    refine h.of_caller rfl rfl ?_
    show rest.length + s.pendingWriteQueue.length + 1 = _ + (s.callers t).tokens
    rw [hpc, CallerPc.tokens]
    omega
  | finish hpc hi =>
    refine h.of_caller rfl rfl ?_
    rw [hpc]
    rfl
  | @enqueuePending t call keyIndex i token hpc =>
    refine h.of_caller rfl rfl ?_
    show _ + (s.pendingWriteQueue ++ [token]).length + 0 = _ + (s.callers t).tokens
    rw [hpc, CallerPc.tokens, List.length_append, List.length_singleton]
    rfl
  | completeWrite => exact h
  | startWorkers => exact h
  | @drainDequeue w position token rest hstarted hworker hpending =>
    have hlength := length_of_dequeueAt hpending
    refine h.of_worker rfl rfl ?_
    show s.freeRequestTokenQueue.length + rest.length + 1 = _ + workerTokens (s.workers w)
    rw [hworker, workerTokens]
    omega
  | @drainFree w token hworker =>
    refine h.of_worker rfl rfl ?_
    show (s.freeRequestTokenQueue ++ [token]).length + s.pendingWriteQueue.length + 0
      = _ + workerTokens (s.workers w)
    rw [hworker, workerTokens, List.length_append, List.length_singleton]
    omega

/-! ## The panic -/

/-- A step out of a running process panics for want of a token only where the writes were not
drained. -/
theorem panic_of_writesDrained (h : s.Conserved)
    (hs : indexStep consts numServers m s label = some s')
    (hdrained : WritesDrained consts numServers m s label) : s'.panic ≠ some .outOfTokens := by
  obtain ⟨hrunning, hmove⟩ := indexStep_cases hs
  cases hmove with
  | invalidPtr => exact fun hpanic => by cases hpanic
  | outOfTokens hpc hi hne hprepare hempty =>
    -- with an empty queue all tokens are outside it
    have hlt := hdrained _ _ _ hpc hi hne (by rw [hprepare]; exact Option.some_ne_none _)
    rw [IndexesState.Conserved, hempty, List.length_nil] at h
    omega
  | post hpc hi hne hprepare htoken =>
    rw [prepareEntry_frame hprepare]
    show s.panic ≠ _
    rw [hrunning]
    exact fun hpanic => by cases hpanic
  | _ =>
    show s.panic ≠ _
    rw [hrunning]
    exact fun hpanic => by cases hpanic

/-- A step at which the writes are not drained panics. -/
theorem panic_of_not_writesDrained (hm : m < numServers) (h : s.Conserved)
    (hs : indexStep consts numServers m s label = some s')
    (hdrained : ¬ WritesDrained consts numServers m s label) : s'.panic = some .outOfTokens := by
  obtain ⟨hrunning, -⟩ := indexStep_cases hs
  cases label with
  | callStep t position =>
    simp only [WritesDrained, not_forall] at hdrained
    obtain ⟨call, keyIndex, i, hpc, hi, hne, hprepare, hfull⟩ := hdrained
    obtain ⟨prepared, hprepared⟩ := Option.ne_none_iff_exists'.mp hprepare
    -- all tokens are outside the queue
    have hempty : s.freeRequestTokenQueue = [] := by
      rw [IndexesState.Conserved] at h
      exact List.eq_nil_of_length_eq_zero (by omega)
    have hstep : indexStep consts numServers m s (.callStep t position)
        = some { prepared with panic := some .outOfTokens } := by
      have hfree : prepared.freeRequestTokenQueue = [] := by
        rw [prepareEntry_frame hprepared]
        exact hempty
      simp only [indexStep, hrunning, Option.isSome_none, Bool.false_eq_true, if_false, callStep,
        hpc, if_pos hi, if_neg hne, hprepared, postWrite, connectQps_getElem? hm hi, reduceCtorEq,
        if_pos hfree]
    rw [hstep] at hs
    cases hs
    rfl
  | _ => exact absurd trivial hdrained

/-- A run out of a state in which all tokens are accounted for ends without the panic exactly when
the writes are drained at each of its steps. -/
theorem tokens_suffice_from (hm : m < numServers)
    (ls : List (IndexLabel RDMACacheIndex Caller Worker)) (h : s.Conserved)
    (hrunning : s.panic ≠ some .outOfTokens)
    (hrun : runLabels (indexStep consts numServers m) s ls = some s') :
    s'.panic ≠ some .outOfTokens
      ↔ EveryStep (indexStep consts numServers m) (WritesDrained consts numServers m) s ls := by
  refine good_iff_everyStep (I := IndexesState.Conserved)
    (fun s => s.panic ≠ some .outOfTokens) (fun s => s.panic = some .outOfTokens) ?_ ?_ ?_ ?_ ?_ h
    hrunning hrun
  · exact fun _ _ _ hconserved hs => hconserved.step hs
  · exact fun _ _ _ hconserved _ hdrained hs => panic_of_writesDrained hconserved hs hdrained
  · exact fun _ _ _ hconserved _ hdrained hs => panic_of_not_writesDrained hm hconserved hs hdrained
  · -- a process that has panicked makes no step
    intro _ _ _ _ hpanic hs
    rw [(indexStep_cases hs).1] at hpanic
    cases hpanic
  · exact fun _ hpanic hnot => hnot hpanic

/-- **The index writes find a token exactly as long as they are drained.** In every run of a server,
from its construction over the preload to normal operation, `get_request_token` does not reach its
panic if and only if each write is posted while fewer than `FreeRequestTokenQueueSize` writes are
undrained. -/
theorem tokens_suffice_iff (consts : IndexConstants RDMACacheIndex) {numServers m : ℕ}
    (hm : m < numServers) (indexes₀ : ℕ → ℕ → CacheIndex RDMACacheIndex)
    {ls : List (IndexLabel RDMACacheIndex Caller Worker)}
    {s : IndexesState RDMACacheIndex Caller Worker}
    (h : runLabels (indexStep consts numServers m) (.initial indexes₀) ls = some s) :
    s.panic ≠ some .outOfTokens
      ↔ EveryStep (indexStep consts numServers m) (WritesDrained consts numServers m)
          (.initial indexes₀) ls :=
  tokens_suffice_from hm ls (conserved_initial indexes₀) (fun hpanic => by cases hpanic) h

/-- The first write of a server finds all tokens in the queue. -/
theorem tokens_suffice_iff_first_write :
    EveryStep (indexStep offsetConsts 2 0) (WritesDrained offsetConsts 2 0)
      (.initial fun _ _ _ => -1 : IndexesState UInt64 Unit Unit)
      [.beginCall () .writeRemote 5 7, .callStep () 0, .callStep () 0] := by
  have hrun : ∀ rest, ∃ s, runLabels (indexStep offsetConsts 2 0)
      ({ (.initial fun _ _ _ => -1 : IndexesState UInt64 Unit Unit) with
        freeRequestTokenQueue := 0 :: rest })
      [.beginCall () .writeRemote 5 7, .callStep () 0, .callStep () 0] = some s ∧
      s.panic = none := fun _ => ⟨_, rfl, rfl⟩
  obtain ⟨s, hs, hrunning⟩ := hrun (List.range' 1 49999)
  rw [initial_eq_firstToken] at hs
  exact (tokens_suffice_iff offsetConsts (by decide) (fun _ _ _ => -1) hs).mp (by
    rw [hrunning]
    exact (Option.some_ne_none _).symm)

end Conservation

/-! ## The preload -/

section Preload

variable [DecidableEq Caller] [DecidableEq Worker] {consts : IndexConstants RDMACacheIndex}
  {numServers m : ℕ} {s₀ s : IndexesState RDMACacheIndex Caller Worker}

/-- A state the preload can be in: the workers have not been started and nothing has gone wrong. -/
structure Preloading (consts : IndexConstants RDMACacheIndex) (numServers m : ℕ)
    (s₀ s : IndexesState RDMACacheIndex Caller Worker) : Prop where
  /-- The state is reached. -/
  reached : Reachable (indexStep consts numServers m) s₀ s
  /-- The workers have not been started. -/
  notStarted : s.workersStarted = false
  /-- The process is running. -/
  running : s.panic = none

/-- The process has not panicked. -/
theorem Preloading.not_isSome (h : Preloading consts numServers m s₀ s) : ¬ s.panic.isSome := by
  rw [h.running]
  exact Bool.false_ne_true

/-- A step of a call of the preload. -/
theorem Preloading.callStep_eq (h : Preloading consts numServers m s₀ s) (t : Caller)
    (position : ℕ) :
    indexStep consts numServers m s (.callStep t position)
      = callStep consts numServers m s t position := by
  rw [indexStep, if_neg h.not_isSome]

/-- The loop of `write_remote` skips the owner. -/
theorem Preloading.skipOwner (hm : m < numServers) {t : Caller} {keyIndex : UInt64}
    (h : Preloading consts numServers m s₀ s)
    (hpc : s.callers t = .calling .writeRemote keyIndex m) :
    Preloading consts numServers m s₀ (s.moveTo t (.calling .writeRemote keyIndex (m + 1))) := by
  refine ⟨h.reached.tail (l := .callStep t 0) trivial ?_, h.notStarted, h.running⟩
  rw [h.callStep_eq, callStep, hpc]
  simp only [if_pos hm, if_true]

section Post

variable {t : Caller} {keyIndex : UInt64} {i : ℕ}

/-- For another server it posts the write, if it finds a token. -/
theorem Preloading.callStep_post (hm : m < numServers) (h : Preloading consts numServers m s₀ s)
    (hi : i < numServers) (howner : m ≠ i) (hpc : s.callers t = .calling .writeRemote keyIndex i)
    (hvalid : consts.keyValuePtrOffset (s.indexes m m keyIndex) ≠ consts.keyValuePtrInvalid) :
    indexStep consts numServers m s (.callStep t 0)
      = if s.freeRequestTokenQueue = [] then some { s with panic := some .outOfTokens }
        else (dequeueAt s.freeRequestTokenQueue 0).map fun taken =>
          postedState numServers m s t .writeRemote keyIndex i taken.1 taken.2 := by
  have hprepare : prepareEntry consts m s .writeRemote keyIndex = some s := if_neg hvalid
  rw [h.callStep_eq, callStep, hpc]
  simp only [if_pos hi, if_neg howner, hprepare, postWrite, connectQps_getElem? hm hi, reduceCtorEq,
    if_false]

/-- Its token goes to `pending_write_queue`. -/
theorem Preloading.postNext (hm : m < numServers) (h : Preloading consts numServers m s₀ s)
    (hi : i < numServers) (howner : m ≠ i) (hpc : s.callers t = .calling .writeRemote keyIndex i)
    (hvalid : consts.keyValuePtrOffset (s.indexes m m keyIndex) ≠ consts.keyValuePtrInvalid)
    {token : ℕ} {rest : List ℕ} (hfree : s.freeRequestTokenQueue = token :: rest) :
    Preloading consts numServers m s₀
      ({ postedState numServers m s t .writeRemote keyIndex i token rest with
        pendingWriteQueue := s.pendingWriteQueue ++ [token] }.moveTo t
        (.calling .writeRemote keyIndex (i + 1))) := by
  have hpost : indexStep consts numServers m s (.callStep t 0)
      = some (postedState numServers m s t .writeRemote keyIndex i token rest) := by
    rw [h.callStep_post hm hi howner hpc hvalid, hfree]
    rfl
  have hposted : Preloading consts numServers m s₀
      (postedState numServers m s t .writeRemote keyIndex i token rest) :=
    ⟨h.reached.tail trivial hpost, h.notStarted, h.running⟩
  refine ⟨hposted.reached.tail (l := .enqueuePending t) trivial ?_, h.notStarted, h.running⟩
  have hpc' : (postedState numServers m s t .writeRemote keyIndex i token rest).callers t
      = .posted .writeRemote keyIndex i token := moveTo_callers_self _ t _
  rw [indexStep, if_neg hposted.not_isSome]
  simp only [hpc']
  rfl

end Post

/-- The loop of `write_remote`, from server `i` on: it runs out of tokens, or it comes to its end
with one token less for each of the other servers. -/
theorem Preloading.writeRemote_loop (hm : m < numServers) {t : Caller} {keyIndex : UInt64} {i : ℕ}
    (h : Preloading consts numServers m s₀ s) (hi : i ≤ numServers)
    (hpc : s.callers t = .calling .writeRemote keyIndex i)
    (hvalid : consts.keyValuePtrOffset (s.indexes m m keyIndex) ≠ consts.keyValuePtrInvalid) :
    ∃ s', Reachable (indexStep consts numServers m) s₀ s' ∧ s'.workersStarted = false ∧
      s'.touched = s.touched ∧
      (s'.panic = some .outOfTokens ∨
        s'.panic = none ∧ s'.callers t = .idle ∧
          s'.freeRequestTokenQueue.length + (numServers - i)
            = s.freeRequestTokenQueue.length + if i ≤ m then 1 else 0) := by
  -- the induction is on the servers that are left
  induction hleft : numServers - i generalizing i s with
  | zero =>
    have hend : ¬ i < numServers := by omega
    refine ⟨s.moveTo t .idle, h.reached.tail (l := .callStep t 0) trivial ?_, h.notStarted, rfl,
      Or.inr ⟨h.running, moveTo_callers_self s t .idle, ?_⟩⟩
    · rw [h.callStep_eq, callStep, hpc]
      simp only [if_neg hend]
    · rw [if_neg (by omega)]
      rfl
  | succ left ih =>
    have hlt : i < numServers := by omega
    by_cases howner : m = i
    · -- the owner itself is skipped
      subst howner
      obtain ⟨s', hreached, hnot, htouched, hend⟩ := ih (h.skipOwner hm hpc) hlt
        (moveTo_callers_self s t _) hvalid (by omega)
      refine ⟨s', hreached, hnot, htouched, ?_⟩
      rcases hend with hpanic | ⟨hrunning, hidle, hlength⟩
      · exact Or.inl hpanic
      · have hlength' : s'.freeRequestTokenQueue.length + left
            = s.freeRequestTokenQueue.length + 0 := by
          rw [if_neg (by omega)] at hlength
          exact hlength
        refine Or.inr ⟨hrunning, hidle, ?_⟩
        rw [if_pos le_rfl]
        omega
    · cases hfree : s.freeRequestTokenQueue with
      | nil =>
        refine ⟨{ s with panic := some .outOfTokens },
          h.reached.tail (l := .callStep t 0) trivial ?_, h.notStarted, rfl, Or.inl rfl⟩
        rw [h.callStep_post hm hlt howner hpc hvalid, if_pos hfree]
      | cons token rest =>
        obtain ⟨s', hreached, hnot, htouched, hend⟩ := ih
          (h.postNext hm hlt howner hpc hvalid hfree) hlt (moveTo_callers_self _ t _) hvalid
          (by omega)
        refine ⟨s', hreached, hnot, htouched, ?_⟩
        rcases hend with hpanic | ⟨hrunning, hidle, hlength⟩
        · exact Or.inl hpanic
        · have hlength' : s'.freeRequestTokenQueue.length + left
              = rest.length + if i + 1 ≤ m then 1 else 0 := hlength
          refine Or.inr ⟨hrunning, hidle, ?_⟩
          rw [List.length_cons]
          split_ifs at hlength' ⊢ <;> omega

/-- The preload of `keys`, with a valid entry for each: when there are fewer tokens than the peers
have to be told of keys, it runs out of them. -/
theorem Preloading.outOfTokens (hm : m < numServers) (t : Caller) {entry : RDMACacheIndex}
    (hentry : consts.keyValuePtrOffset entry ≠ consts.keyValuePtrInvalid) (keys : List UInt64)
    (h : Preloading consts numServers m s₀ s) (hidle : s.callers t = .idle)
    (hfew : s.freeRequestTokenQueue.length < keys.length * (numServers - 1)) :
    ∃ s', Reachable (indexStep consts numServers m) s₀ s' ∧ s'.workersStarted = false ∧
      s'.touched <+: s.touched ++ keys ∧ s'.panic = some .outOfTokens := by
  induction keys generalizing s with
  | nil =>
    rw [List.length_nil, Nat.zero_mul] at hfew
    exact absurd hfew (Nat.not_lt_zero _)
  | cons key keys ih =>
    -- the put of `key` has changed the own entry, and its callback makes the call
    let begun := { setOwnEntry m s key entry with touched := s.touched ++ [key] }.moveTo t
      (.calling .writeRemote key 0)
    have hbegin : indexStep consts numServers m s (.beginCall t .writeRemote key entry)
        = some begun := by
      rw [indexStep, if_neg h.not_isSome]
      simp only [hidle, if_true]
      rfl
    have hbegun : Preloading consts numServers m s₀ begun :=
      ⟨h.reached.tail trivial hbegin, h.notStarted, h.running⟩
    have hvalid : consts.keyValuePtrOffset (begun.indexes m m key) ≠ consts.keyValuePtrInvalid := by
      show consts.keyValuePtrOffset (update₂ s.indexes m m _ m m key) ≠ _
      rw [update₂_self, Function.update_self]
      exact hentry
    obtain ⟨s', hreached, hnot, htouched, hend⟩ :=
      hbegun.writeRemote_loop hm (Nat.zero_le _) (moveTo_callers_self _ t _) hvalid
    have hkeys : s'.touched = s.touched ++ [key] := htouched
    rcases hend with hpanic | ⟨hrunning, hidle', hlength⟩
    · refine ⟨s', hreached, hnot, ?_, hpanic⟩
      rw [hkeys, List.prefix_append_right_inj]
      exact ⟨keys, rfl⟩
    · have hqueue : begun.freeRequestTokenQueue = s.freeRequestTokenQueue := rfl
      rw [if_pos (Nat.zero_le m), hqueue] at hlength
      rw [List.length_cons, Nat.succ_mul] at hfew
      obtain ⟨last, hlast, hnotLast, hprefix, hpanic⟩ :=
        ih ⟨hreached, hnot, hrunning⟩ hidle' (by omega)
      refine ⟨last, hlast, hnotLast, ?_, hpanic⟩
      rwa [hkeys, List.append_assoc] at hprefix

/-- **The preload exhausts the tokens** of a server with a dataset that has more keys for it than
`FreeRequestTokenQueueSize / (n - 1)`: the panic is reached before the workers are started. -/
theorem preload_outOfTokens (hm : m < numServers) (t : Caller) {entry : RDMACacheIndex}
    (hentry : consts.keyValuePtrOffset entry ≠ consts.keyValuePtrInvalid)
    (indexes₀ : ℕ → ℕ → CacheIndex RDMACacheIndex) (keys : List UInt64)
    (hkeys : freeRequestTokenQueueSize < keys.length * (numServers - 1)) :
    ∃ s : IndexesState RDMACacheIndex Caller Worker,
      Reachable (indexStep consts numServers m) (.initial indexes₀) s ∧
        s.workersStarted = false ∧ s.touched <+: keys ∧ s.panic = some .outOfTokens := by
  have hstart : Preloading consts numServers m
      (.initial indexes₀ : IndexesState RDMACacheIndex Caller Worker) (.initial indexes₀) :=
    ⟨.refl, rfl, rfl⟩
  have hlength : (IndexesState.initial indexes₀ : IndexesState RDMACacheIndex Caller
      Worker).freeRequestTokenQueue.length = freeRequestTokenQueueSize := by
    rw [IndexesState.initial, List.length_range]
  exact hstart.outOfTokens hm t hentry keys rfl (lt_of_eq_of_lt hlength hkeys)

end Preload

/-- Two servers with a dataset of which 50001 keys belong to the first. -/
theorem preload_outOfTokens_two_servers :
    ∃ s : IndexesState UInt64 Unit (Fin 4),
      Reachable (indexStep offsetConsts 2 0) (.initial fun _ _ _ => -1) s ∧
        s.workersStarted = false ∧ s.touched <+: (List.range 50001).map UInt64.ofNat ∧
        s.panic = some .outOfTokens :=
  preload_outOfTokens (by decide) () (by decide : offsetConsts.keyValuePtrOffset 7 ≠ _) _ _
    (by rw [List.length_map, List.length_range, freeRequestTokenQueueSize]; decide)

end TwigKV.CacheIndexes
