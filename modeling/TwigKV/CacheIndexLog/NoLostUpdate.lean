import TwigKV.CacheIndexLog.LogMachine
import Mathlib.Data.UInt

/-! # Which updates of the cache-index log are lost

Before it ships its buffer, `append_entry` reads entry `0` of the region behind the queue pair
`i * n + m`, which is its own copy of peer `i`'s log and says nothing about peer `i`'s progress. A
write can therefore overwrite entries the peer has not applied. No update is lost in a run exactly
when the threads are scheduled so that the peer's worker goes over its copy between two writes to
it: over slot `0` after the first write, over all slots after a later one (`noLostUpdate_iff`). -/

namespace TwigKV.CacheIndexLog

open TwigKV.Rdma

variable {RDMACacheIndex : Type*} {consts : LogConstants RDMACacheIndex}
  {numServers maxCacheLogIndex : ℕ} {st st' : LogsState RDMACacheIndex}
  {label : LogLabel RDMACacheIndex}

/-- Server `m` is about to write its log buffer into peer `i`'s copy. -/
def WritesTo (numServers : ℕ) (st : LogsState RDMACacheIndex) (label : LogLabel RDMACacheIndex)
    (m i : ℕ) : Prop :=
  label = .shipLog m ∧ st.appender m = .writing i ∧ i < numServers ∧ i ≠ m

/-- Whenever `m` writes into peer `i`'s copy of its log, peer `i` has applied every filled entry
written there before. -/
def NothingUnapplied (numServers : ℕ) (st : LogsState RDMACacheIndex)
    (label : LogLabel RDMACacheIndex) : Prop :=
  ∀ m i, WritesTo numServers st label m i → st.unapplied i m = []

/-- The schedule that the log needs: when `m` writes into peer `i`'s copy of its log again, the
worker of `i` has taken its step at every slot of the copy since the last write. After the first
write, which carries the entry of the first call alone, slot `0` is enough. -/
def WorkerHasPassed (numServers maxCacheLogIndex : ℕ) (st : LogsState RDMACacheIndex)
    (label : LogLabel RDMACacheIndex) : Prop :=
  ∀ m i, WritesTo numServers st label m i → st.batch i m ≠ 0 →
    ∀ j < maxCacheLogIndex, (st.batch i m = 1 → j = 0) → j ∈ st.passed i m

/-! ## What a step does to one peer's copy -/

/-- What a step can do to the copy of `m`'s log at a peer `s`. -/
inductive PeerMove (numServers maxCacheLogIndex : ℕ) (st st' : LogsState RDMACacheIndex)
    (label : LogLabel RDMACacheIndex) (s m : ℕ) : Prop where
  /-- Nothing, apart from the flag slot. -/
  | keep (hlog : ∀ j < maxCacheLogIndex, st'.logs s m j = st.logs s m j)
      (hbatch : st'.batch s m = st.batch s m) (hunapplied : st'.unapplied s m = st.unapplied s m)
      (hpassed : st'.passed s m = st.passed s m)
  /-- `m` writes its buffer. -/
  | write (hwrites : WritesTo numServers st label m s)
      (hlog : ∀ j < maxCacheLogIndex, st'.logs s m j = st.logs m m j)
      (hbatch : st'.batch s m = st.batch s m + 1)
      (hunapplied : st'.unapplied s m = st.unapplied s m ++
        (filledSlots maxCacheLogIndex (st.logs m m)).map fun j => (st.batch s m + 1, j))
      (hpassed : st'.passed s m = [])
  /-- The worker of `s` applies slot `i`. -/
  | apply (i : ℕ) (hi : i < maxCacheLogIndex)
      (hlog : ∀ j < maxCacheLogIndex, st'.logs s m j = clearFilled (st.logs s m) i j)
      (hbatch : st'.batch s m = st.batch s m)
      (hunapplied : st'.unapplied s m = if (st.logs s m i).filled then
          (st.unapplied s m).filter fun p => p ≠ (st.batch s m, i) else st.unapplied s m)
      (hpassed : st'.passed s m = i :: st.passed s m)

/-- Changing a server's own buffer leaves the copies at its peers alone. -/
theorem update₂_own {α : Type*} (f : ℕ → ℕ → α) {a s m : ℕ} (v : α) (hsm : s ≠ m) :
    update₂ f a a v s m = f s m := by
  rw [update₂_apply, if_neg]
  rintro ⟨rfl, rfl⟩
  exact hsm rfl

/-- A step that keeps a peer's copy, or all of it but the flag slot. -/
theorem PeerMove.of_logs_eq {s m : ℕ} (hlog : st'.logs s m = st.logs s m)
    (hbatch : st'.batch s m = st.batch s m) (hunapplied : st'.unapplied s m = st.unapplied s m)
    (hpassed : st'.passed s m = st.passed s m) :
    PeerMove numServers maxCacheLogIndex st st' label s m :=
  .keep (fun j _ => by rw [hlog]) hbatch hunapplied hpassed

/-- A write changes only the copy of the writer's log at the machine written to. -/
theorem peerMove_writeLog {a i s m : ℕ} (hw : st.appender a = .writing i) (hi : i < numServers)
    (hia : i ≠ a) :
    PeerMove numServers maxCacheLogIndex st (writeLog maxCacheLogIndex st a i ⟨i, a⟩)
      (.shipLog a) s m := by
  by_cases hpair : s = i ∧ m = a
  · obtain ⟨rfl, rfl⟩ := hpair
    refine .write ⟨rfl, hw, hi, hia⟩ (fun j hj => ?_) ?_ ?_ ?_
    · rw [writeLog]
      simp only
      rw [update₂_self, copyBuffer, if_pos (Nat.le_of_lt hj)]
    · rw [writeLog]
      exact update₂_self _ _ _ _
    · rw [writeLog]
      exact update₂_self _ _ _ _
    · rw [writeLog]
      exact update₂_self _ _ _ _
  · have hne : s ≠ i ∨ m ≠ a := by
      by_cases hs : s = i
      · exact Or.inr fun hm => hpair ⟨hs, hm⟩
      · exact Or.inl hs
    exact .of_logs_eq (update₂_of_ne _ _ hne) (update₂_of_ne _ _ hne) (update₂_of_ne _ _ hne)
      (update₂_of_ne _ _ hne)

/-- The worker changes only the copy it works on. -/
theorem peerMove_applyStep {s₀ m₀ j s m : ℕ} (hj : j < maxCacheLogIndex) :
    PeerMove numServers maxCacheLogIndex st (applyStep consts st s₀ m₀ j) label s m := by
  by_cases hpair : s = s₀ ∧ m = m₀
  · obtain ⟨rfl, rfl⟩ := hpair
    refine .apply j hj (fun k _ => ?_) rfl ?_ ?_
    · rw [applyStep]
      simp only
      rw [update₂_self, applySlot_fst]
    · rw [applyStep]
      exact update₂_self _ _ _ _
    · rw [applyStep]
      exact update₂_self _ _ _ _
  · have hne : s ≠ s₀ ∨ m ≠ m₀ := by
      by_cases hs : s = s₀
      · exact Or.inr fun hm => hpair ⟨hs, hm⟩
      · exact Or.inl hs
    exact .of_logs_eq (update₂_of_ne _ _ hne) rfl (update₂_of_ne _ _ hne) (update₂_of_ne _ _ hne)

/-- Every step makes one of the moves on every peer's copy. -/
theorem peerMove_of_logStep {s m : ℕ} (hsm : s ≠ m)
    (h : logStep consts numServers maxCacheLogIndex st label = some st') :
    PeerMove numServers maxCacheLogIndex st st' label s m := by
  cases label with
  | append a entry =>
      rw [logStep] at h
      split at h
      · rw [Option.some.injEq] at h
        subst h
        exact .of_logs_eq (update₂_own _ _ hsm) rfl rfl rfl
      · exact absurd h (by simp)
  | checkReady a =>
      rw [logStep] at h
      split at h
      · split at h
        · split at h
          · rw [Option.some.injEq] at h
            subst h
            exact .of_logs_eq rfl rfl rfl rfl
          · obtain ⟨region, -, rfl⟩ := Option.map_eq_some_iff.mp h
            exact .of_logs_eq (update₂_own _ _ hsm) rfl rfl rfl
        · rw [Option.some.injEq] at h
          subst h
          rw [finishReadiness]
          split
          · exact .of_logs_eq (update₂_own _ _ hsm) rfl rfl rfl
          · exact .of_logs_eq rfl rfl rfl rfl
      · exact absurd h (by simp)
  | shipLog a =>
      rw [logStep] at h
      split at h
      · next i hpc =>
        split at h
        · next hi =>
          split at h
          · rw [Option.some.injEq] at h
            subst h
            exact .of_logs_eq rfl rfl rfl rfl
          · next hia =>
            obtain ⟨region, hregion, rfl⟩ := Option.map_eq_some_iff.mp h
            rw [eq_of_connectQps_getElem? hi hregion]
            exact peerMove_writeLog hpc hi hia
        · rw [Option.some.injEq] at h
          subst h
          exact .of_logs_eq rfl rfl rfl rfl
      · exact absurd h (by simp)
  | workerStep a =>
      rw [logStep] at h
      split at h
      · simp only at h
        split at h
        · split at h
          · rw [Option.some.injEq] at h
            subst h
            exact .of_logs_eq rfl rfl rfl rfl
          · split at h
            · next hj =>
              rw [Option.some.injEq] at h
              subst h
              exact peerMove_applyStep hj
            · rw [Option.some.injEq] at h
              subst h
              -- only the flag slot of the copy is cleared
              refine .keep (fun j hj => ?_) rfl rfl rfl
              simp only
              by_cases hpair : s = a ∧ m = (st.worker a).1
              · obtain ⟨rfl, rfl⟩ := hpair
                rw [update₂_self, clearFilled_of_ne _ (Nat.ne_of_lt hj)]
              · rw [update₂_of_ne]
                by_cases hs : s = a
                · exact Or.inr fun hm => hpair ⟨hs, hm⟩
                · exact Or.inl hs
        · rw [Option.some.injEq] at h
          subst h
          exact .of_logs_eq rfl rfl rfl rfl
      · exact absurd h (by simp)

/-! ## What a server's own buffer holds -/

/-- The slots before `k` are filled, the others are not. -/
def FirstFilled (maxCacheLogIndex : ℕ) (log : LogBuffer RDMACacheIndex) (k : ℕ) : Prop :=
  ∀ j < maxCacheLogIndex, ((log j).filled = true ↔ j < k)

/-- How far server `m` has filled its buffer, and whether its peers have been written to: nobody
before the first call, one after the other while that call ships slot `0`, everybody after it. The
counter may wrap once all slots are filled. -/
inductive SenderStage (numServers maxCacheLogIndex : ℕ) (st : LogsState RDMACacheIndex) (m : ℕ) :
    Prop where
  /-- Before the first call. -/
  | fresh (hpc : st.appender m = .idle) (hindex : st.logIndex m = 0)
      (hfilled : FirstFilled maxCacheLogIndex (st.logs m m) 0)
      (hbatch : ∀ s, s ≠ m → st.batch s m = 0)
  /-- The first call asks whether its peers are ready. -/
  | reading (i machinesReady : ℕ) (hpc : st.appender m = .reading i machinesReady)
      (hindex : st.logIndex m = 1) (hfilled : FirstFilled maxCacheLogIndex (st.logs m m) 1)
      (hbatch : ∀ s, s ≠ m → st.batch s m = 0)
  /-- The first call writes to its peers. -/
  | writing (i : ℕ) (hpc : st.appender m = .writing i) (hindex : st.logIndex m = 1)
      (hfilled : FirstFilled maxCacheLogIndex (st.logs m m) 1)
      (hbatch : ∀ s < numServers, s ≠ m → st.batch s m = if s < i then 1 else 0)
  /-- Between the calls that fill the other slots. -/
  | filling (hpc : st.appender m = .idle) (hpos : 0 < (st.logIndex m).toNat)
      (hlt : (st.logIndex m).toNat < maxCacheLogIndex)
      (hfilled : FirstFilled maxCacheLogIndex (st.logs m m) (st.logIndex m).toNat)
      (hbatch : ∀ s < numServers, s ≠ m → st.batch s m ≠ 0)
  /-- All slots are filled. -/
  | full (hfilled : FirstFilled maxCacheLogIndex (st.logs m m) maxCacheLogIndex)
      (hbatch : ∀ s < numServers, s ≠ m → st.batch s m ≠ 0)

/-- The filled slots depend on the slots below the flag slot only. -/
theorem FirstFilled.congr {log log' : LogBuffer RDMACacheIndex} {k : ℕ}
    (h : FirstFilled maxCacheLogIndex log k) (hlog : ∀ j < maxCacheLogIndex, log' j = log j) :
    FirstFilled maxCacheLogIndex log' k :=
  fun j hj => by rw [hlog j hj]; exact h j hj

/-- The next slot is filled. -/
theorem FirstFilled.store {log : LogBuffer RDMACacheIndex} {index : UInt64} {k : ℕ}
    (h : FirstFilled maxCacheLogIndex log k) (hslot : index.toNat % maxCacheLogIndex = k)
    (entry : CacheIndexLogEntry RDMACacheIndex) :
    FirstFilled maxCacheLogIndex (storeEntry maxCacheLogIndex index entry log) (k + 1) := by
  intro j hj
  rw [storeEntry, hslot, Function.update_apply]
  split
  · next heq => exact iff_of_true rfl (by omega)
  · next hne => exact (h j hj).trans (by omega)

/-- A full buffer stays full. -/
theorem FirstFilled.store_full {log : LogBuffer RDMACacheIndex}
    (h : FirstFilled maxCacheLogIndex log maxCacheLogIndex) (index : UInt64)
    (entry : CacheIndexLogEntry RDMACacheIndex) :
    FirstFilled maxCacheLogIndex (storeEntry maxCacheLogIndex index entry log)
      maxCacheLogIndex := by
  intro j hj
  rw [storeEntry, Function.update_apply]
  split
  · exact iff_of_true rfl hj
  · exact h j hj

/-- A step that leaves the own buffer of `m`, its thread and its writes alone. -/
theorem SenderStage.congr {m : ℕ} (h : SenderStage numServers maxCacheLogIndex st m)
    (hlog : ∀ j < maxCacheLogIndex, st'.logs m m j = st.logs m m j)
    (hindex : st'.logIndex m = st.logIndex m) (hpc : st'.appender m = st.appender m)
    (hbatch : ∀ s, s ≠ m → st'.batch s m = st.batch s m) :
    SenderStage numServers maxCacheLogIndex st' m := by
  cases h with
  | fresh hpc₀ hindex₀ hfilled hbatch₀ =>
      exact .fresh (hpc.trans hpc₀) (hindex.trans hindex₀) (hfilled.congr hlog)
        fun s hs => (hbatch s hs).trans (hbatch₀ s hs)
  | reading i machinesReady hpc₀ hindex₀ hfilled hbatch₀ =>
      exact .reading i machinesReady (hpc.trans hpc₀) (hindex.trans hindex₀) (hfilled.congr hlog)
        fun s hs => (hbatch s hs).trans (hbatch₀ s hs)
  | writing i hpc₀ hindex₀ hfilled hbatch₀ =>
      exact .writing i (hpc.trans hpc₀) (hindex.trans hindex₀) (hfilled.congr hlog)
        fun s hn hs => (hbatch s hs).trans (hbatch₀ s hn hs)
  | filling hpc₀ hpos hlt hfilled hbatch₀ =>
      refine .filling (hpc.trans hpc₀) ?_ ?_ ?_ fun s hn hs => (hbatch s hs).symm ▸ hbatch₀ s hn hs
      · rwa [hindex]
      · rwa [hindex]
      · rw [hindex]
        exact hfilled.congr hlog
  | full hfilled hbatch₀ =>
      exact .full (hfilled.congr hlog) fun s hn hs => (hbatch s hs).symm ▸ hbatch₀ s hn hs

/-- A call of `append_entry`. -/
theorem SenderStage.append {m : ℕ} (hsize : maxCacheLogIndex < 2 ^ 64)
    (h : SenderStage numServers maxCacheLogIndex st m) (hidle : st.appender m = .idle)
    (entry : CacheIndexLogEntry RDMACacheIndex) :
    SenderStage numServers maxCacheLogIndex (appendStep maxCacheLogIndex st m entry) m := by
  have hlog : (appendStep maxCacheLogIndex st m entry).logs m m
      = storeEntry maxCacheLogIndex (st.logIndex m) entry (st.logs m m) := update₂_self _ _ _ _
  have hindex : (appendStep maxCacheLogIndex st m entry).logIndex m = st.logIndex m + 1 :=
    Function.update_self _ _ _
  have hpc : (appendStep maxCacheLogIndex st m entry).appender m
      = if (st.logIndex m).toNat % maxCacheLogIndex = 0 then .reading 0 0 else .idle :=
    Function.update_self _ _ _
  cases h with
  | fresh _ hindex₀ hfilled hbatch =>
      rw [hindex₀] at hlog hindex hpc
      refine .reading 0 0 (hpc.trans (if_pos (Nat.zero_mod _))) hindex ?_ hbatch
      rw [hlog]
      exact hfilled.store (Nat.zero_mod _) entry
  | reading i machinesReady hpc₀ => rw [hidle] at hpc₀; cases hpc₀
  | writing i hpc₀ => rw [hidle] at hpc₀; cases hpc₀
  | filling _ hpos hlt hfilled hbatch =>
      have hslot : (st.logIndex m).toNat % maxCacheLogIndex = (st.logIndex m).toNat :=
        Nat.mod_eq_of_lt hlt
      have hnext := hfilled.store hslot entry
      rw [← hlog] at hnext
      rw [hslot, if_neg (Nat.ne_of_gt hpos)] at hpc
      rcases Nat.lt_or_eq_of_le (Nat.succ_le_of_lt hlt) with hinside | hend
      · have hvalue : (st.logIndex m + 1).toNat = (st.logIndex m).toNat + 1 := by
          have hone : (1 : UInt64).toNat = 1 := rfl
          rw [UInt64.toNat_add, hone]
          omega
        rw [← hindex] at hvalue
        rw [← hvalue] at hnext
        exact .filling hpc (by omega) (by omega) hnext hbatch
      · rw [Nat.succ_eq_add_one] at hend
        rw [hend] at hnext
        exact .full hnext hbatch
  | full hfilled hbatch =>
      refine .full ?_ hbatch
      rw [hlog]
      exact hfilled.store_full _ entry

/-- A step of the readiness loop. -/
theorem SenderStage.checkReady {m i machinesReady : ℕ}
    (h : SenderStage numServers maxCacheLogIndex st m)
    (hreading : st.appender m = .reading i machinesReady)
    (hlog : ∀ j < maxCacheLogIndex, st'.logs m m j = st.logs m m j)
    (hindex : st'.logIndex m = st.logIndex m) (hbatch : st'.batch = st.batch)
    (hpc : (∃ i machinesReady, st'.appender m = .reading i machinesReady) ∨
      st'.appender m = .writing 0) : SenderStage numServers maxCacheLogIndex st' m := by
  cases h with
  | fresh hpc₀ => rw [hreading] at hpc₀; cases hpc₀
  | reading i₀ machinesReady₀ hpc₀ hindex₀ hfilled hbatch₀ =>
      rw [← hbatch] at hbatch₀
      rcases hpc with ⟨i', machinesReady', hpc⟩ | hpc
      · exact .reading i' machinesReady' hpc (hindex.trans hindex₀) (hfilled.congr hlog) hbatch₀
      · exact .writing 0 hpc (hindex.trans hindex₀) (hfilled.congr hlog) fun s _ hs => hbatch₀ s hs
  | writing i hpc₀ => rw [hreading] at hpc₀; cases hpc₀
  | filling hpc₀ => rw [hreading] at hpc₀; cases hpc₀
  | full hfilled hbatch₀ => exact .full (hfilled.congr hlog) fun s hn hs => hbatch ▸ hbatch₀ s hn hs

/-- A step of the loop over the writes. -/
theorem SenderStage.shipLog {m i : ℕ} (h : SenderStage numServers maxCacheLogIndex st m)
    (hwriting : st.appender m = .writing i)
    (hlog : ∀ j < maxCacheLogIndex, st'.logs m m j = st.logs m m j)
    (hindex : st'.logIndex m = st.logIndex m)
    (hstep : (st'.appender m = .writing (i + 1) ∧ ∀ s < numServers, s ≠ m →
        st'.batch s m = if s = i then st.batch s m + 1 else st.batch s m) ∨
      (st'.appender m = .idle ∧ numServers ≤ i ∧ st'.batch = st.batch)) :
    SenderStage numServers maxCacheLogIndex st' m := by
  cases h with
  | fresh hpc₀ => rw [hwriting] at hpc₀; cases hpc₀
  | reading i₀ machinesReady₀ hpc₀ => rw [hwriting] at hpc₀; cases hpc₀
  | writing i₀ hpc₀ hindex₀ hfilled hbatch₀ =>
      obtain rfl : i = i₀ := by
        rw [hwriting] at hpc₀
        cases hpc₀
        rfl
      have hone : st'.logIndex m = 1 := hindex.trans hindex₀
      rcases hstep with ⟨hpc, hbatch⟩ | ⟨hpc, hend, hbatch⟩
      · refine .writing (i + 1) hpc hone (hfilled.congr hlog) fun s hn hs => ?_
        rw [hbatch s hn hs, hbatch₀ s hn hs]
        split_ifs <;> omega
      · have hwritten : ∀ s < numServers, s ≠ m → st'.batch s m ≠ 0 := by
          intro s hn hs
          rw [hbatch, hbatch₀ s hn hs, if_pos (by omega)]
          exact Nat.one_ne_zero
        have hvalue : (st'.logIndex m).toNat = 1 := by rw [hone]; rfl
        by_cases hmore : 1 < maxCacheLogIndex
        · exact .filling hpc (by omega) (by omega) (by rw [hvalue]; exact hfilled.congr hlog)
            hwritten
        · refine .full (fun j hj => ?_) hwritten
          rw [hfilled.congr hlog j hj]
          omega
  | filling hpc₀ => rw [hwriting] at hpc₀; cases hpc₀
  | full hfilled hbatch₀ =>
      refine .full (hfilled.congr hlog) fun s hn hs => ?_
      rcases hstep with ⟨-, hbatch⟩ | ⟨-, -, hbatch⟩
      · rw [hbatch s hn hs]
        have := hbatch₀ s hn hs
        split_ifs <;> omega
      · rw [hbatch]
        exact hbatch₀ s hn hs

/-- Every step keeps the stage of every server. -/
theorem SenderStage.step {m : ℕ} (hsize : maxCacheLogIndex < 2 ^ 64)
    (hinv : SenderStage numServers maxCacheLogIndex st m)
    (h : logStep consts numServers maxCacheLogIndex st label = some st') :
    SenderStage numServers maxCacheLogIndex st' m := by
  cases label with
  | append a entry =>
      rw [logStep] at h
      split at h
      · next hidle =>
        rw [Option.some.injEq] at h
        subst h
        by_cases hma : m = a
        · subst hma
          exact hinv.append hsize hidle.2 entry
        · exact hinv.congr (fun j _ => congrFun (update₂_of_ne _ _ (Or.inl hma)) j)
            (Function.update_of_ne hma _ _) (Function.update_of_ne hma _ _) fun _ _ => rfl
      · exact absurd h (by simp)
  | checkReady a =>
      rw [logStep] at h
      split at h
      · next i machinesReady hreading =>
        -- what such a step changes: the flag slot and the place of the thread
        obtain ⟨hlog, hindex, hbatch, hpc, hothers⟩ :
            (∀ s m, ∀ j < maxCacheLogIndex, st'.logs s m j = st.logs s m j) ∧
              st'.logIndex = st.logIndex ∧ st'.batch = st.batch ∧
              ((∃ i machinesReady, st'.appender a = .reading i machinesReady) ∨
                st'.appender a = .writing 0) ∧
              ∀ b, b ≠ a → st'.appender b = st.appender b := by
          have hflag : ∀ (log : LogBuffer RDMACacheIndex) (s m j : ℕ), j < maxCacheLogIndex →
              log j = st.logs a a j → update₂ st.logs a a log s m j = st.logs s m j := by
            intro log s m j hj hsame
            rw [update₂_apply]
            split
            · next hpair => rw [hpair.1, hpair.2, hsame]
            · rfl
          split at h
          · split at h
            · rw [Option.some.injEq] at h
              subst h
              exact ⟨fun _ _ _ _ => rfl, rfl, rfl, Or.inl ⟨_, _, Function.update_self _ _ _⟩,
                fun b hb => Function.update_of_ne hb _ _⟩
            · obtain ⟨region, -, rfl⟩ := Option.map_eq_some_iff.mp h
              refine ⟨fun s m j hj => hflag _ s m j hj ?_, rfl, rfl,
                Or.inl ⟨_, _, Function.update_self _ _ _⟩, fun b hb => Function.update_of_ne hb _ _⟩
              exact Function.update_of_ne (Nat.ne_of_lt hj) _ _
          · rw [Option.some.injEq] at h
            subst h
            rw [finishReadiness]
            split
            · refine ⟨fun s m j hj => hflag _ s m j hj ?_, rfl, rfl,
                Or.inr (Function.update_self _ _ _), fun b hb => Function.update_of_ne hb _ _⟩
              exact setFilled_of_ne _ (Nat.ne_of_lt hj)
            · exact ⟨fun _ _ _ _ => rfl, rfl, rfl, Or.inl ⟨_, _, Function.update_self _ _ _⟩,
                fun b hb => Function.update_of_ne hb _ _⟩
        by_cases hma : m = a
        · subst hma
          exact hinv.checkReady hreading (hlog m m) (congrFun hindex m) hbatch hpc
        · exact hinv.congr (hlog m m) (congrFun hindex m) (hothers m hma)
            fun s _ => congrFun (congrFun hbatch s) m
      · exact absurd h (by simp)
  | shipLog a =>
      rw [logStep] at h
      split at h
      · next i hwriting =>
        split at h
        · next hi =>
          split at h
          · next hia =>
            rw [Option.some.injEq] at h
            subst h
            by_cases hma : m = a
            · subst hma
              refine hinv.shipLog hwriting (fun _ _ => rfl) rfl
                (Or.inl ⟨Function.update_self _ _ _, fun s _ hs => ?_⟩)
              rw [if_neg (hia ▸ hs)]
            · exact hinv.congr (fun _ _ => rfl) rfl (Function.update_of_ne hma _ _) fun _ _ => rfl
          · next hia =>
            obtain ⟨region, hregion, rfl⟩ := Option.map_eq_some_iff.mp h
            rw [eq_of_connectQps_getElem? hi hregion]
            have hlog : ∀ m, (writeLog maxCacheLogIndex st a i ⟨i, a⟩).logs m m = st.logs m m := by
              intro m
              refine update₂_of_ne _ _ ?_
              by_cases hmi : m = i
              · exact Or.inr fun hma => hia (hmi.symm.trans hma)
              · exact Or.inl hmi
            by_cases hma : m = a
            · subst hma
              refine hinv.shipLog hwriting (fun j _ => congrFun (hlog m) j) rfl
                (Or.inl ⟨Function.update_self _ _ _, fun s _ _ => ?_⟩)
              have hbatch := update₂_apply st.batch i s m m (st.batch i m + 1)
              rw [show (writeLog maxCacheLogIndex st m i ⟨i, m⟩).batch s m
                = update₂ st.batch i m (st.batch i m + 1) s m from rfl, hbatch]
              split_ifs with h1 h2 h2
              · rw [h2]
              · exact absurd h1.1 h2
              · exact absurd ⟨h2, rfl⟩ h1
              · rfl
            · exact hinv.congr (fun j _ => congrFun (hlog m) j) rfl (Function.update_of_ne hma _ _)
                fun s _ => update₂_of_ne _ _ (Or.inr hma)
        · next hend =>
          rw [Option.some.injEq] at h
          subst h
          by_cases hma : m = a
          · subst hma
            exact hinv.shipLog hwriting (fun _ _ => rfl) rfl
              (Or.inr ⟨Function.update_self _ _ _, Nat.not_lt.mp hend, rfl⟩)
          · exact hinv.congr (fun _ _ => rfl) rfl (Function.update_of_ne hma _ _) fun _ _ => rfl
      · exact absurd h (by simp)
  | workerStep a =>
      -- the worker of `a` changes copies of other servers' logs
      have hown : ∀ (log : LogBuffer RDMACacheIndex), (st.worker a).1 ≠ a →
          update₂ st.logs a (st.worker a).1 log m m = st.logs m m := by
        intro log hne
        refine update₂_of_ne _ _ ?_
        by_cases hma : m = a
        · exact Or.inr fun heq => hne (heq.symm.trans hma)
        · exact Or.inl hma
      rw [logStep] at h
      split at h
      · simp only at h
        split at h
        · split at h
          · rw [Option.some.injEq] at h
            subst h
            exact hinv.congr (fun _ _ => rfl) rfl rfl fun _ _ => rfl
          · next hne =>
            split at h
            · rw [Option.some.injEq] at h
              subst h
              exact hinv.congr (fun j _ => congrFun (hown _ hne) j) rfl rfl fun _ _ => rfl
            · rw [Option.some.injEq] at h
              subst h
              exact hinv.congr (fun j _ => congrFun (hown _ hne) j) rfl rfl fun _ _ => rfl
        · rw [Option.some.injEq] at h
          subst h
          exact hinv.congr (fun _ _ => rfl) rfl rfl fun _ _ => rfl
      · exact absurd h (by simp)

/-- Before anything has happened. -/
theorem senderStage_initial (consts : LogConstants RDMACacheIndex)
    (replicas : ℕ → ℕ → CacheIndex RDMACacheIndex) (m : ℕ) :
    SenderStage numServers maxCacheLogIndex (.initial consts replicas) m :=
  .fresh rfl rfl (fun j _ => iff_of_false Bool.false_ne_true (Nat.not_lt_zero j)) fun _ _ => rfl

/-- The first write to a peer carries slot `0`, a later one all slots. -/
theorem SenderStage.filled_iff {m i : ℕ} (h : SenderStage numServers maxCacheLogIndex st m)
    (hwrites : WritesTo numServers st label m i) {j : ℕ} (hj : j < maxCacheLogIndex) :
    (st.logs m m j).filled = true ↔ (st.batch i m = 0 → j = 0) := by
  obtain ⟨-, hwriting, hi, him⟩ := hwrites
  cases h with
  | fresh hpc => rw [hwriting] at hpc; cases hpc
  | reading i₀ machinesReady hpc => rw [hwriting] at hpc; cases hpc
  | writing i₀ hpc _ hfilled hbatch =>
      obtain rfl : i = i₀ := by
        rw [hwriting] at hpc
        cases hpc
        rfl
      rw [hfilled j hj, hbatch i hi him, if_neg (Nat.lt_irrefl i)]
      omega
  | filling hpc => rw [hwriting] at hpc; cases hpc
  | full hfilled hbatch =>
      exact iff_of_true ((hfilled j hj).mpr hj) fun h0 => absurd h0 (hbatch i hi him)

/-! ## What awaits the worker -/

/-- The slots that the last write to a copy has filled. -/
def LastWritten (maxCacheLogIndex : ℕ) (st : LogsState RDMACacheIndex) (s m j : ℕ) : Prop :=
  st.batch s m ≠ 0 ∧ j < maxCacheLogIndex ∧ (st.batch s m = 1 → j = 0)

/-- What the last write has filled awaits the worker until it passes. -/
def PassedOrUnapplied (maxCacheLogIndex : ℕ) (st : LogsState RDMACacheIndex) : Prop :=
  ∀ s m, s ≠ m → ∀ j, LastWritten maxCacheLogIndex st s m j →
    j ∈ st.passed s m ∨ (st.batch s m, j) ∈ st.unapplied s m

/-- Every entry that awaits the worker is of the last write, filled, and the worker has not
passed. -/
def UnappliedNotPassed (maxCacheLogIndex : ℕ) (st : LogsState RDMACacheIndex) : Prop :=
  ∀ s m, s ≠ m → ∀ p ∈ st.unapplied s m, p.1 = st.batch s m ∧
    LastWritten maxCacheLogIndex st s m p.2 ∧ (st.logs s m p.2).filled = true ∧
      p.2 ∉ st.passed s m

/-- A filled slot of a buffer is among its filled slots. -/
theorem mem_filledSlots_iff {log : LogBuffer RDMACacheIndex} {j : ℕ} :
    j ∈ filledSlots maxCacheLogIndex log ↔ j < maxCacheLogIndex ∧ (log j).filled = true := by
  rw [filledSlots, List.mem_filter, List.mem_range]

/-- Every step keeps what has been written and not passed among the unapplied entries. -/
theorem PassedOrUnapplied.step (hinv : PassedOrUnapplied maxCacheLogIndex st)
    (hstage : ∀ m, SenderStage numServers maxCacheLogIndex st m)
    (h : logStep consts numServers maxCacheLogIndex st label = some st') :
    PassedOrUnapplied maxCacheLogIndex st' := by
  intro s m hsm j hj
  cases peerMove_of_logStep hsm h with
  | keep hlog hbatch hunapplied hpassed =>
      rw [LastWritten, hbatch] at hj
      rw [hbatch, hunapplied, hpassed]
      exact hinv s m hsm j hj
  | write hwrites hlog hbatch hunapplied hpassed =>
      obtain ⟨-, hslot, hfirst⟩ := hj
      rw [hbatch] at hfirst
      rw [hbatch, hunapplied]
      refine Or.inr (List.mem_append_right _ (List.mem_map.mpr ⟨j, ?_, rfl⟩))
      refine mem_filledSlots_iff.mpr ⟨hslot, ((hstage m).filled_iff hwrites hslot).mpr ?_⟩
      exact fun h0 => hfirst (by omega)
  | apply i hi hlog hbatch hunapplied hpassed =>
      rw [LastWritten, hbatch] at hj
      rw [hbatch, hunapplied, hpassed]
      by_cases hji : j = i
      · exact Or.inl (hji ▸ List.mem_cons_self)
      · refine (hinv s m hsm j hj).imp (List.mem_cons_of_mem i) fun hmem => ?_
        split
        · refine List.mem_filter.mpr ⟨hmem, ?_⟩
          simpa using hji
        · exact hmem

/-- Steps on the schedule leave nothing of an earlier write unapplied. -/
theorem UnappliedNotPassed.step (hinv : UnappliedNotPassed maxCacheLogIndex st)
    (hstage : ∀ m, SenderStage numServers maxCacheLogIndex st m)
    (hschedule : WorkerHasPassed numServers maxCacheLogIndex st label)
    (h : logStep consts numServers maxCacheLogIndex st label = some st') :
    UnappliedNotPassed maxCacheLogIndex st' := by
  intro s m hsm p hp
  cases peerMove_of_logStep hsm h with
  | keep hlog hbatch hunapplied hpassed =>
      rw [hunapplied] at hp
      obtain ⟨hnumber, hlast, hfilled, hnot⟩ := hinv s m hsm p hp
      rw [LastWritten, hbatch, hlog _ hlast.2.1, hpassed]
      exact ⟨hnumber, hlast, hfilled, hnot⟩
  | write hwrites hlog hbatch hunapplied hpassed =>
      rw [hunapplied] at hp
      rcases List.mem_append.mp hp with hold | hnew
      · -- the worker has passed everything that the write before has filled
        obtain ⟨-, hlast, -, hnot⟩ := hinv s m hsm p hold
        exact absurd (hschedule m s hwrites hlast.1 p.2 hlast.2.1 hlast.2.2) hnot
      · obtain ⟨j, hj, rfl⟩ := List.mem_map.mp hnew
        obtain ⟨hslot, hfilled⟩ := mem_filledSlots_iff.mp hj
        have hfirst := ((hstage m).filled_iff hwrites hslot).mp hfilled
        rw [LastWritten, hbatch, hlog j hslot, hpassed]
        exact ⟨rfl, ⟨Nat.succ_ne_zero _, hslot, fun h1 => hfirst (by omega)⟩, hfilled,
          List.not_mem_nil⟩
  | apply i hi hlog hbatch hunapplied hpassed =>
      have hmem : p ∈ st.unapplied s m ∧ p ≠ (st.batch s m, i) := by
        rw [hunapplied] at hp
        split at hp
        · obtain ⟨hmem, hne⟩ := List.mem_filter.mp hp
          exact ⟨hmem, of_decide_eq_true hne⟩
        · next hnot =>
          refine ⟨hp, ?_⟩
          rintro rfl
          exact hnot (hinv s m hsm _ hp).2.2.1
      obtain ⟨hnumber, hlast, hfilled, hnot⟩ := hinv s m hsm p hmem.1
      have hne : p.2 ≠ i := fun heq => hmem.2 (Prod.ext hnumber heq)
      rw [LastWritten, hbatch, hlog _ hlast.2.1, clearFilled_of_ne _ hne, hpassed]
      exact ⟨hnumber, hlast, hfilled, fun hpast => (List.mem_cons.mp hpast).elim hne hnot⟩

/-- **When no update is lost.** In every run of any number of servers, every write of a log buffer
finds all filled entries written to that copy before applied exactly when the peer's worker has
passed the slots of the copy between every two writes. -/
theorem noLostUpdate_iff {maxCacheLogIndex : UInt64}
    (replicas : ℕ → ℕ → CacheIndex RDMACacheIndex) (labels : List (LogLabel RDMACacheIndex)) :
    EveryStep (logStep consts numServers maxCacheLogIndex.toNat) (NothingUnapplied numServers)
        (.initial consts replicas) labels ↔
      EveryStep (logStep consts numServers maxCacheLogIndex.toNat)
        (WorkerHasPassed numServers maxCacheLogIndex.toNat) (.initial consts replicas) labels := by
  have hsize : maxCacheLogIndex.toNat < 2 ^ 64 := maxCacheLogIndex.toNat_lt
  constructor
  · refine EveryStep.imp (I := fun st => PassedOrUnapplied maxCacheLogIndex.toNat st ∧
        ∀ m, SenderStage numServers maxCacheLogIndex.toNat st m)
      (fun st label hinv hnothing m i hwrites hbatch j hj hfirst => ?_)
      (fun st label st' hinv _ hstep =>
        ⟨hinv.1.step hinv.2 hstep, fun m => (hinv.2 m).step hsize hstep⟩)
      ⟨fun s m _ j hj => absurd rfl hj.1, senderStage_initial consts replicas⟩
    rcases hinv.1 i m hwrites.2.2.2 j ⟨hbatch, hj, hfirst⟩ with hpassed | hmem
    · exact hpassed
    · rw [hnothing m i hwrites] at hmem
      exact absurd hmem List.not_mem_nil
  · refine EveryStep.imp (I := fun st => UnappliedNotPassed maxCacheLogIndex.toNat st ∧
        ∀ m, SenderStage numServers maxCacheLogIndex.toNat st m)
      (fun st label hinv hschedule m i hwrites => ?_)
      (fun st label st' hinv hschedule hstep =>
        ⟨hinv.1.step hinv.2 hschedule hstep, fun m => (hinv.2 m).step hsize hstep⟩)
      ⟨fun s m _ p hp => absurd hp List.not_mem_nil, senderStage_initial consts replicas⟩
    refine List.eq_nil_iff_forall_not_mem.mpr fun p hp => ?_
    obtain ⟨-, hlast, -, hnot⟩ := hinv.1 i m hwrites.2.2.2 p hp
    exact hnot (hschedule m i hwrites hlast.1 p.2 hlast.2.1 hlast.2.2)

/-- Two appends on server `0` of two, with a log of one slot, and no step of server `1`'s worker. -/
def unappliedRun : List (LogLabel UInt64) :=
  [.append 0 ⟨5, 10, false⟩, .checkReady 0, .checkReady 0, .checkReady 0,
    .shipLog 0, .shipLog 0, .shipLog 0,
    .append 0 ⟨6, 20, false⟩, .checkReady 0, .checkReady 0, .checkReady 0, .shipLog 0]

/-- Server `0` reads its own copy of server `1`'s log, finds it empty and overwrites the entry for
key `5` that server `1` has not applied. -/
theorem unapplied_entry_overwritten :
    ¬ EveryStep (logStep ⟨-1, (-1 : UInt64)⟩ 2 1) (NothingUnapplied 2)
      (.initial ⟨-1, -1⟩ fun _ _ _ => -1) (unappliedRun ++ [.shipLog 0]) := by
  intro h
  obtain ⟨st, hrun, hpc, hunapplied⟩ : ∃ st, runLabels (logStep ⟨-1, (-1 : UInt64)⟩ 2 1)
      (.initial ⟨-1, -1⟩ fun _ _ _ => -1) unappliedRun = some st ∧
      st.appender 0 = .writing 1 ∧ st.unapplied 1 0 = [(1, 0)] := ⟨_, rfl, rfl, rfl⟩
  have hlost := h.after_prefix hrun 0 1 ⟨rfl, hpc, by decide, by decide⟩
  rw [hunapplied] at hlost
  exact absurd hlost (by decide)

end TwigKV.CacheIndexLog
