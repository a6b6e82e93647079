import TwigKV.CacheIndexes.IndexMachine
import Mathlib.Tactic.SplitIfs

/-! # Direct propagation converges

One server makes a sequence of `write_remote` and `dealloc_remote` calls. A write copies the entry
its owner holds when it executes, so what a peer needs is one write that executes after the last
change: every touched key is either right at a peer, or has a write to it posted, or is one the call
in progress has still to post (`IndexInvariant.informed`). Once nothing is posted and no call is in
progress, the replicas are right (`index_propagation_converges`).

A write names its target only by `m * n + i`; the layout of the table of queue pairs makes it the
replica of the owner's index at server `i`. -/

namespace TwigKV.CacheIndexes

open TwigKV.CacheIndexLog TwigKV.Rdma

variable {RDMACacheIndex Worker : Type*}

/-- The key of the call in progress. -/
def CallerPc.key : CallerPc → Option UInt64
  | .idle => none
  | .calling _ keyIndex _ | .posted _ keyIndex _ _ => some keyIndex

/-- The call in progress has still to post a write of the key to server `i`. -/
def CallerPc.Owes : CallerPc → UInt64 → ℕ → Prop
  | .idle, _, _ => False
  | .calling _ key next, keyIndex, i => key = keyIndex ∧ next ≤ i
  | .posted _ key current _, keyIndex, i => key = keyIndex ∧ current < i

/-- `dealloc_remote` is in progress and has made the entry of the key invalid. -/
def CallerPc.HasCleared (m : ℕ) : CallerPc → UInt64 → Prop
  | .calling .deallocRemote key next, keyIndex => key = keyIndex ∧ ∃ j, j < next ∧ m ≠ j
  | .posted .deallocRemote key _ _, keyIndex => key = keyIndex
  | _, _ => False

/-- What holds of all index buffers during a sequence of calls. -/
structure IndexInvariant (consts : IndexConstants RDMACacheIndex) (numServers m : ℕ)
    (indexes₀ : ℕ → ℕ → CacheIndex RDMACacheIndex)
    (s : IndexesState RDMACacheIndex Unit Worker) : Prop where
  /-- Only the touched entries of the owner's index have changed. -/
  unchanged : ∀ server owner keyIndex,
    ¬ (server < numServers ∧ owner = m ∧ keyIndex ∈ s.touched) →
    s.indexes server owner keyIndex = indexes₀ server owner keyIndex
  /-- Writes of touched keys are posted, on the owner's queue pairs to its peers. -/
  posted : ∀ rdmaIndex, ∀ write ∈ s.postedWrites rdmaIndex,
    (∃ i, i < numServers ∧ m ≠ i ∧ rdmaIndex = m * numServers + i) ∧ write.keyIndex ∈ s.touched
  /-- The key of the call in progress is touched. -/
  calling : ∀ keyIndex, (s.callers ()).key = some keyIndex → keyIndex ∈ s.touched
  /-- Every peer has a touched entry, or a write of it is posted or still to be posted. -/
  informed : ∀ i, i < numServers → m ≠ i → ∀ keyIndex ∈ s.touched,
    s.indexes i m keyIndex = s.indexes m m keyIndex ∨
      (∃ write ∈ s.postedWrites (m * numServers + i), write.keyIndex = keyIndex) ∨
      (s.callers ()).Owes keyIndex i
  /-- An entry that `dealloc_remote` has made invalid is invalid. -/
  cleared : ∀ keyIndex, (s.callers ()).HasCleared m keyIndex →
    s.indexes m m keyIndex = consts.invalidRDMACacheIndex

section Steps

variable {consts : IndexConstants RDMACacheIndex} {numServers m : ℕ}
  {indexes₀ : ℕ → ℕ → CacheIndex RDMACacheIndex} {s : IndexesState RDMACacheIndex Unit Worker}

/-- The state after construction. -/
theorem indexInvariant_initial : IndexInvariant consts numServers m indexes₀
    (.initial indexes₀ : IndexesState RDMACacheIndex Unit Worker) where
  unchanged := fun _ _ _ _ => rfl
  posted := fun _ _ hmem => absurd hmem List.not_mem_nil
  calling := fun _ hkey => by cases hkey
  informed := fun _ _ _ _ hmem => absurd hmem List.not_mem_nil
  cleared := fun _ hcleared => hcleared.elim

/-- Moves of the thread that keep what it owes to the peers, and make no entry count as cleared that
is not, keep the invariant. -/
theorem IndexInvariant.moveTo (h : IndexInvariant consts numServers m indexes₀ s) {pc : CallerPc}
    (hkey : ∀ keyIndex, pc.key = some keyIndex → keyIndex ∈ s.touched)
    (howes : ∀ keyIndex i, i < numServers → m ≠ i → (s.callers ()).Owes keyIndex i →
      pc.Owes keyIndex i)
    (hcleared : ∀ keyIndex, pc.HasCleared m keyIndex →
      s.indexes m m keyIndex = consts.invalidRDMACacheIndex) :
    IndexInvariant consts numServers m indexes₀ (s.moveTo () pc) := by
  have hpc : (s.moveTo () pc).callers () = pc := moveTo_callers_self s () pc
  refine ⟨h.unchanged, h.posted, ?_, ?_, ?_⟩
  · rw [hpc]
    exact hkey
  · intro i hi hne keyIndex hmem
    rw [hpc]
    exact (h.informed i hi hne keyIndex hmem).imp_right
      (Or.imp_right (howes keyIndex i hi hne))
  · rw [hpc]
    exact hcleared

/-- A call begins, with a change of the owner's entry. -/
theorem IndexInvariant.beginCall (hm : m < numServers)
    (h : IndexInvariant consts numServers m indexes₀ s) (hpc : s.callers () = .idle)
    (call : IndexCall) (keyIndex : UInt64) (entry : RDMACacheIndex) :
    IndexInvariant consts numServers m indexes₀
      ({ setOwnEntry m s keyIndex entry with touched := s.touched ++ [keyIndex] }.moveTo ()
        (.calling call keyIndex 0)) where
  unchanged := by
    intro server owner k hnot
    show update₂ s.indexes m m (Function.update (s.indexes m m) keyIndex entry) server owner k = _
    have hold : ¬ (server < numServers ∧ owner = m ∧ k ∈ s.touched) := by
      rintro ⟨hserver, howner, hk⟩
      exact hnot ⟨hserver, howner, List.mem_append_left _ hk⟩
    rw [update₂_apply]
    split_ifs with hown
    · -- the owner's own index: the key is another one
      have hk : k ≠ keyIndex := by
        rintro rfl
        exact hnot ⟨by rw [hown.1]; exact hm, hown.2, List.mem_append_right _ List.mem_cons_self⟩
      rw [Function.update_of_ne hk, ← h.unchanged server owner k hold, hown.1, hown.2]
    · exact h.unchanged server owner k hold
  posted := by
    intro rdmaIndex write hmem
    obtain ⟨htarget, hkey⟩ := h.posted rdmaIndex write hmem
    exact ⟨htarget, List.mem_append_left _ hkey⟩
  calling := by
    rintro k hkey
    cases hkey
    exact List.mem_append_right _ List.mem_cons_self
  informed := by
    intro i hi hne k hk
    show update₂ s.indexes m m (Function.update (s.indexes m m) keyIndex entry) i m k
      = update₂ s.indexes m m (Function.update (s.indexes m m) keyIndex entry) m m k ∨ _
    rw [update₂_self, update₂_of_ne _ _ (Or.inl hne.symm)]
    by_cases hkey : k = keyIndex
    · -- the call starts at server 0, so it owes the key to every peer
      exact Or.inr (Or.inr ⟨hkey.symm, Nat.zero_le _⟩)
    · rcases List.mem_append.mp hk with hold | hnew
      · rw [Function.update_of_ne hkey]
        rcases h.informed i hi hne k hold with hright | hposted | howes
        · exact Or.inl hright
        · exact Or.inr (Or.inl hposted)
        · rw [hpc] at howes
          exact howes.elim
      · exact absurd (List.mem_singleton.mp hnew) hkey
  cleared := by
    intro k hcleared
    cases call with
    | writeRemote => exact hcleared.elim
    | deallocRemote =>
      obtain ⟨-, j, hj, -⟩ := hcleared
      exact absurd hj (Nat.not_lt_zero j)

/-- `dealloc_remote` makes the entry invalid: the peers it has already written to have a write of
the same entry. -/
theorem IndexInvariant.clearEntry (hm : m < numServers)
    (h : IndexInvariant consts numServers m indexes₀ s) {keyIndex : UInt64} {i : ℕ}
    (hpc : s.callers () = .calling .deallocRemote keyIndex i) :
    IndexInvariant consts numServers m indexes₀
      (setOwnEntry m s keyIndex consts.invalidRDMACacheIndex) := by
  have htouched : keyIndex ∈ s.touched := h.calling keyIndex (by rw [hpc]; rfl)
  refine ⟨?_, h.posted, h.calling, ?_, ?_⟩
  · intro server owner k hnot
    show update₂ s.indexes m m (Function.update (s.indexes m m) keyIndex
      consts.invalidRDMACacheIndex) server owner k = _
    rw [update₂_apply]
    split_ifs with hown
    · have hk : k ≠ keyIndex := by
        rintro rfl
        exact hnot ⟨by rw [hown.1]; exact hm, hown.2, htouched⟩
      rw [Function.update_of_ne hk, ← h.unchanged server owner k hnot, hown.1, hown.2]
    · exact h.unchanged server owner k hnot
  · intro j hj hne k hk
    show update₂ s.indexes m m (Function.update (s.indexes m m) keyIndex
      consts.invalidRDMACacheIndex) j m k = update₂ s.indexes m m (Function.update (s.indexes m m)
        keyIndex consts.invalidRDMACacheIndex) m m k ∨ _
    rw [update₂_self, update₂_of_ne _ _ (Or.inl hne.symm)]
    by_cases hkey : k = keyIndex
    · subst hkey
      rw [Function.update_self]
      rcases Nat.lt_or_ge j i with hbefore | hafter
      · -- server `j` came before: the entry was invalid already
        have hinvalid := h.cleared k (by rw [hpc]; exact ⟨rfl, j, hbefore, hne⟩)
        rw [← hinvalid]
        exact h.informed j hj hne k hk
      · -- server `j` is still to come
        have hcallers : (setOwnEntry m s k consts.invalidRDMACacheIndex).callers ()
            = .calling .deallocRemote k i := hpc
        rw [hcallers]
        exact Or.inr (Or.inr ⟨rfl, hafter⟩)
    · rw [Function.update_of_ne hkey]
      exact h.informed j hj hne k hk
  · intro k hcleared
    show update₂ s.indexes m m (Function.update (s.indexes m m) keyIndex
      consts.invalidRDMACacheIndex) m m k = _
    rw [update₂_self]
    by_cases hkey : k = keyIndex
    · rw [hkey, Function.update_self]
    · rw [Function.update_of_ne hkey]
      exact h.cleared k hcleared

/-- The loop body before the write. -/
theorem IndexInvariant.prepareEntry (hm : m < numServers)
    (h : IndexInvariant consts numServers m indexes₀ s) {call : IndexCall} {keyIndex : UInt64}
    {i : ℕ} (hpc : s.callers () = .calling call keyIndex i)
    {prepared : IndexesState RDMACacheIndex Unit Worker}
    (hprepare : prepareEntry consts m s call keyIndex = some prepared) :
    IndexInvariant consts numServers m indexes₀ prepared ∧
      prepared.callers () = .calling call keyIndex i ∧
      (call = .deallocRemote →
        prepared.indexes m m keyIndex = consts.invalidRDMACacheIndex) := by
  rw [prepareEntry_eq hprepare]
  cases call with
  | writeRemote => exact ⟨h, hpc, fun hcall => by cases hcall⟩
  | deallocRemote =>
    refine ⟨h.clearEntry hm hpc, hpc, fun _ => ?_⟩
    show update₂ s.indexes m m _ m m keyIndex = _
    rw [update₂_self, Function.update_self]

/-- A write to server `i` is posted. -/
theorem IndexInvariant.post (h : IndexInvariant consts numServers m indexes₀ s) {call : IndexCall}
    {keyIndex : UInt64} {i token : ℕ} {rest : List ℕ}
    (hpc : s.callers () = .calling call keyIndex i) (hi : i < numServers) (hne : m ≠ i)
    (hinvalid : call = .deallocRemote →
      s.indexes m m keyIndex = consts.invalidRDMACacheIndex) :
    IndexInvariant consts numServers m indexes₀
      (postedState numServers m s () call keyIndex i token rest) := by
  have htouched : keyIndex ∈ s.touched := h.calling keyIndex (by rw [hpc]; rfl)
  have hcallers : (postedState numServers m s () call keyIndex i token rest).callers ()
      = .posted call keyIndex i token := moveTo_callers_self _ _ _
  refine ⟨h.unchanged, ?_, ?_, ?_, ?_⟩
  · intro rdmaIndex write hmem
    have hmem' : write ∈ Function.update s.postedWrites (m * numServers + i)
        (s.postedWrites (m * numServers + i) ++ [PostedWrite.mk keyIndex token]) rdmaIndex := hmem
    by_cases hq : rdmaIndex = m * numServers + i
    · subst hq
      rw [Function.update_self, List.mem_append, List.mem_singleton] at hmem'
      rcases hmem' with hold | rfl
      · exact h.posted _ write hold
      · exact ⟨⟨i, hi, hne, rfl⟩, htouched⟩
    · rw [Function.update_of_ne hq] at hmem'
      exact h.posted rdmaIndex write hmem'
  · intro k hkey
    rw [hcallers] at hkey
    cases hkey
    exact htouched
  · intro j hj hnej k hk
    rw [hcallers]
    show _ ∨ (∃ write ∈ Function.update s.postedWrites (m * numServers + i)
      (s.postedWrites (m * numServers + i) ++ [PostedWrite.mk keyIndex token])
        (m * numServers + j), _) ∨ _
    by_cases hij : j = i
    · subst hij
      rw [Function.update_self]
      rcases h.informed j hj hnej k hk with hright | ⟨write, hmem, hkey⟩ | howes
      · exact Or.inl hright
      · exact Or.inr (Or.inl ⟨write, List.mem_append_left _ hmem, hkey⟩)
      · -- this is the write the call owed
        rw [hpc] at howes
        exact Or.inr (Or.inl ⟨_, List.mem_append_right _ List.mem_cons_self, howes.1⟩)
    · rw [Function.update_of_ne (by omega)]
      refine (h.informed j hj hnej k hk).imp_right (Or.imp_right fun howes => ?_)
      rw [hpc] at howes
      exact ⟨howes.1, lt_of_le_of_ne howes.2 (Ne.symm hij)⟩
  · intro k hcleared
    rw [hcallers] at hcleared
    cases call with
    | writeRemote => exact hcleared.elim
    | deallocRemote =>
      rw [show k = keyIndex from Eq.symm hcleared]
      exact hinvalid rfl

/-- The oldest write of a queue pair executes: its peer now has the owner's entry. -/
theorem IndexInvariant.completeWrite (hm : m < numServers)
    (h : IndexInvariant consts numServers m indexes₀ s) {rdmaIndex : ℕ} {write : PostedWrite}
    {rest : List PostedWrite} {region : Region}
    (hposted : s.postedWrites rdmaIndex = write :: rest)
    (hregion : (connectQps numServers)[rdmaIndex]? = some region) :
    IndexInvariant consts numServers m indexes₀ (writeEntry m s rdmaIndex write rest region) := by
  obtain ⟨⟨i, hi, hne, rfl⟩, hkey⟩ := h.posted rdmaIndex write (by
    rw [hposted]
    exact List.mem_cons_self)
  -- the queue pair leads to the replica of the owner's index at server `i`
  rw [connectQps_getElem? hm hi, Option.some.injEq] at hregion
  subst hregion
  have hown : ∀ k, (writeEntry m s (m * numServers + i) write rest ⟨i, m⟩).indexes m m k
      = s.indexes m m k := by
    intro k
    show update₂ s.indexes i m _ m m k = _
    rw [update₂_of_ne _ _ (Or.inl hne)]
  refine ⟨?_, ?_, h.calling, ?_, ?_⟩
  · intro server owner k hnot
    rw [← h.unchanged server owner k hnot]
    show update₂ s.indexes i m (Function.update (s.indexes i m) write.keyIndex
      (s.indexes m m write.keyIndex)) server owner k = _
    rw [update₂_apply]
    split_ifs with htarget
    · have hk : k ≠ write.keyIndex := by
        rintro rfl
        exact hnot ⟨by rw [htarget.1]; exact hi, htarget.2, hkey⟩
      rw [Function.update_of_ne hk, htarget.1, htarget.2]
    · rfl
  · intro q other hmem
    have hmem' : other ∈ Function.update s.postedWrites (m * numServers + i) rest q := hmem
    by_cases hq : q = m * numServers + i
    · subst hq
      rw [Function.update_self] at hmem'
      exact h.posted _ other (by rw [hposted]; exact List.mem_cons_of_mem _ hmem')
    · rw [Function.update_of_ne hq] at hmem'
      exact h.posted q other hmem'
  · intro j hj hnej k hk
    rw [hown]
    show update₂ s.indexes i m (Function.update (s.indexes i m) write.keyIndex
      (s.indexes m m write.keyIndex)) j m k = _ ∨ (∃ other ∈ Function.update s.postedWrites
        (m * numServers + i) rest (m * numServers + j), _) ∨ _
    by_cases hij : j = i
    · subst hij
      rw [update₂_self, Function.update_self]
      by_cases hwritten : k = write.keyIndex
      · -- the write has copied what the owner holds now
        left
        rw [hwritten, Function.update_self]
      · rw [Function.update_of_ne hwritten]
        refine (h.informed j hj hnej k hk).imp_right (Or.imp_left ?_)
        -- a write of `k` that was posted is still posted: it is not the one that executed
        rintro ⟨other, hmem, hother⟩
        rw [hposted] at hmem
        rcases List.mem_cons.mp hmem with rfl | hrest
        · exact absurd hother.symm hwritten
        · exact ⟨other, hrest, hother⟩
    · rw [update₂_of_ne _ _ (Or.inl hij), Function.update_of_ne (by omega)]
      exact h.informed j hj hnej k hk
  · intro k hcleared
    rw [hown]
    exact h.cleared k hcleared

variable [DecidableEq Worker]

/-- Every step keeps the invariant. -/
theorem IndexInvariant.step (hm : m < numServers)
    (h : IndexInvariant consts numServers m indexes₀ s)
    {label : IndexLabel RDMACacheIndex Unit Worker} {s' : IndexesState RDMACacheIndex Unit Worker}
    (hs : indexStep consts numServers m s label = some s') :
    IndexInvariant consts numServers m indexes₀ s' := by
  obtain ⟨-, hmove⟩ := indexStep_cases hs
  cases hmove with
  | beginCall hpc => exact h.beginCall hm hpc _ _ _
  | @skipOwner _ _ call keyIndex hpc =>
    apply h.moveTo
    · intro k hk
      apply h.calling k
      rw [hpc]
      exact hk
    · -- the owner is not one of the peers, so nothing is owed to it
      intro k i _ hne howes
      rw [hpc] at howes
      exact ⟨howes.1, lt_of_le_of_ne howes.2 hne⟩
    · intro k hcleared
      apply h.cleared k
      rw [hpc]
      cases call with
      | writeRemote => exact hcleared.elim
      | deallocRemote =>
        obtain ⟨hk, j, hj, hne⟩ := hcleared
        exact ⟨hk, j, lt_of_le_of_ne (Nat.lt_succ_iff.mp hj) (Ne.symm hne), hne⟩
  | invalidPtr => exact ⟨h.unchanged, h.posted, h.calling, h.informed, h.cleared⟩
  | outOfTokens hpc hi hne hprepare hempty =>
    -- the entry has been prepared before the panic
    have hprepared := (h.prepareEntry hm hpc hprepare).1
    exact ⟨hprepared.unchanged, hprepared.posted, hprepared.calling, hprepared.informed,
      hprepared.cleared⟩
  | post hpc hi hne hprepare htoken =>
    obtain ⟨hprepared, hpc', hinvalid⟩ := h.prepareEntry hm hpc hprepare
    exact hprepared.post hpc' hi hne hinvalid
  | finish hpc hi =>
    apply h.moveTo
    · intro k hk
      cases hk
    · -- past the last server nothing is owed
      intro k i hlt _ howes
      rw [hpc] at howes
      exact absurd (lt_of_lt_of_le hlt hi) (Nat.not_lt.mpr howes.2)
    · intro k hcleared
      exact hcleared.elim
  | @enqueuePending _ call keyIndex i token hpc =>
    have hqueued : IndexInvariant consts numServers m indexes₀
        { s with pendingWriteQueue := s.pendingWriteQueue ++ [token] } :=
      ⟨h.unchanged, h.posted, h.calling, h.informed, h.cleared⟩
    apply hqueued.moveTo
    · intro k hk
      apply h.calling k
      rw [hpc]
      exact hk
    · intro k j _ _ howes
      rw [show ({ s with pendingWriteQueue := s.pendingWriteQueue ++ [token] }
        : IndexesState RDMACacheIndex Unit Worker).callers () = s.callers () from rfl, hpc] at howes
      exact howes
    · intro k hcleared
      apply h.cleared k
      rw [hpc]
      cases call with
      | writeRemote => exact hcleared.elim
      | deallocRemote => exact hcleared.1
  | completeWrite hposted hregion => exact h.completeWrite hm hposted hregion
  | startWorkers => exact ⟨h.unchanged, h.posted, h.calling, h.informed, h.cleared⟩
  | drainDequeue => exact ⟨h.unchanged, h.posted, h.calling, h.informed, h.cleared⟩
  | drainFree => exact ⟨h.unchanged, h.posted, h.calling, h.informed, h.cleared⟩

end Steps

variable [DecidableEq Worker]

/-- **Direct propagation converges.** For any number of servers and any sequence of `write_remote`
and `dealloc_remote` calls of server `m`, with their writes and the workers interleaved in any way:
once the last call has returned and all posted writes have executed, every peer's replica of `m`'s
index equals it at every key written or deallocated, and every other entry of every index is as it
was. -/
theorem index_propagation_converges (consts : IndexConstants RDMACacheIndex) {numServers m : ℕ}
    (hm : m < numServers) (indexes₀ : ℕ → ℕ → CacheIndex RDMACacheIndex)
    {s : IndexesState RDMACacheIndex Unit Worker}
    (h : Reachable (indexStep consts numServers m) (.initial indexes₀) s)
    (hreturned : s.callers () = .idle) (hexecuted : ∀ rdmaIndex, s.postedWrites rdmaIndex = []) :
    (∀ i, i < numServers → i ≠ m → ∀ keyIndex ∈ s.touched,
        s.indexes i m keyIndex = s.indexes m m keyIndex) ∧
      ∀ server owner keyIndex, ¬ (server < numServers ∧ owner = m ∧ keyIndex ∈ s.touched) →
        s.indexes server owner keyIndex = indexes₀ server owner keyIndex := by
  have hinv : IndexInvariant consts numServers m indexes₀ s :=
    h.invariant indexInvariant_initial fun _ _ _ _ hinv _ hs => hinv.step hm hs
  refine ⟨?_, hinv.unchanged⟩
  intro i hi hne keyIndex hk
  rcases hinv.informed i hi (Ne.symm hne) keyIndex hk with hright | ⟨write, hmem, -⟩ | howes
  · exact hright
  · rw [hexecuted] at hmem
    exact absurd hmem List.not_mem_nil
  · rw [hreturned] at howes
    exact howes.elim

/-- Server `0` of two writes offset `7` for key `5`, and the write executes. -/
def oneWriteRun : List (IndexLabel UInt64 Unit Unit) :=
  [.beginCall () .writeRemote 5 7, .callStep () 0, .callStep () 0, .enqueuePending (),
    .callStep () 0, .completeWrite 1]

/-- Afterwards the replica at server `1` equals the owner's index at key `5`. -/
theorem index_propagation_converges_one_write :
    ∃ s, runLabels (indexStep offsetConsts 2 0)
        (.initial fun _ _ _ => -1 : IndexesState UInt64 Unit Unit) oneWriteRun = some s ∧
      s.touched = [5] ∧ s.indexes 0 0 5 = 7 ∧ s.indexes 1 0 5 = s.indexes 0 0 5 := by
  have hrun : ∀ rest, ∃ s, runLabels (indexStep offsetConsts 2 0)
      ({ (.initial fun _ _ _ => -1 : IndexesState UInt64 Unit Unit) with
        freeRequestTokenQueue := 0 :: rest }) oneWriteRun = some s ∧ s.touched = [5] ∧
      s.indexes 0 0 5 = 7 ∧ s.callers () = .idle ∧ ∀ rdmaIndex, s.postedWrites rdmaIndex = [] := by
    intro rest
    refine ⟨_, rfl, rfl, rfl, rfl, ?_⟩
    intro rdmaIndex
    show Function.update (Function.update (fun _ => []) 1 [PostedWrite.mk 5 0]) 1 [] rdmaIndex = []
    by_cases hq : rdmaIndex = 1
    · rw [hq, Function.update_self]
    · rw [Function.update_of_ne hq, Function.update_of_ne hq]
  obtain ⟨s, hs, htouched, hown, hreturned, hexecuted⟩ := hrun (List.range' 1 49999)
  rw [initial_eq_firstToken] at hs
  have hconverges := (index_propagation_converges offsetConsts (by decide) (fun _ _ _ => -1)
    (reachable_of_runLabels oneWriteRun hs) hreturned hexecuted).1 1 (by decide) (by decide) 5
    (by rw [htouched]; exact List.mem_cons_self)
  exact ⟨s, hs, htouched, hown, hconverges⟩

end TwigKV.CacheIndexes
