import TwigKV.ClientSync.Barrier
import TwigKV.ClientSync.ReplyPaths

/-! # Synchronisation among gets

`sync_with_other_clients` takes whatever message comes next, so a get may take a request meant for a
later synchronisation and a synchronisation may take a late reply. What a call needs in order to
return is still a request of every other client machine, and those are sent one for each round. So
no call returns before every other machine has entered the round, whatever else is on the channels
(`round_le_of_returned`). -/

namespace TwigKV.ClientSync

/-- The requests that `b` has sent to `a` have been taken or are under way. -/
def SyncsAccounted (st : NetworkState) (b a : ℕ) : Prop :=
  st.syncsTaken a b + (inFlight b (st.channel a) (st.syncs b a)).length
    = sentRounds (st.pc b) (st.round b) a

/-- The requests a client has taken from the others, from where it stands: one for each round behind
it, and in a round those of the machines it has heard of. -/
def HeardFrom (numClients a round : ℕ) (taken : ℕ → ℕ) : ClientPc → Prop
  | .ready | .getting _ _ => ∀ b < numClients, b ≠ a → round ≤ taken b
  | .sending _ => 1 ≤ round ∧ ∀ b < numClients, b ≠ a → round ≤ taken b + 1
  | .waiting _ indices => (1 ≤ round ∧ ∀ b < numClients, b ≠ a → round ≤ taken b + 1) ∧
      ∀ x ∈ indices, x < numClients ∧ x ≠ a ∧ round ≤ taken x
  | .panicked => True

/-- The invariant of runs in which the further clients of a machine do not synchronise. -/
structure SyncInvariant (numClients : ℕ) (st : NetworkState) : Prop where
  /-- Only the first clients have synchronisations to do. -/
  scripts : ∀ a, numClients ≤ a → ClientAction.sync ∉ st.script a
  /-- The further clients are in no synchronisation. -/
  others : ∀ a, numClients ≤ a → st.pc a = .ready ∨ (st.pc a).isGetting = true
  /-- Requests go between different client machines. -/
  senders : ∀ b a, st.syncs b a ≠ [] → b < numClients ∧ a < numClients ∧ b ≠ a
  /-- So do those that have arrived. -/
  channels : ∀ a index r, Packet.clientSyncRequest index r ∈ st.channel a →
    index < numClients ∧ a < numClients ∧ index ≠ a
  /-- No request is lost. -/
  accounted : ∀ a < numClients, ∀ b < numClients, b ≠ a → SyncsAccounted st b a
  /-- What every first client has taken. -/
  heard : ∀ a < numClients, HeardFrom numClients a (st.round a) (st.syncsTaken a) (st.pc a)

variable {numClients : ℕ} {st : NetworkState}

/-- The invariant holds at the start. -/
theorem syncInvariant_initial {script : ℕ → List ClientAction}
    (hscript : ∀ a, numClients ≤ a → ClientAction.sync ∉ script a) :
    SyncInvariant numClients (.initial script) where
  scripts := hscript
  others := fun _ _ => Or.inl rfl
  senders := fun _ _ h => absurd rfl h
  channels := fun _ _ _ h => absurd h List.not_mem_nil
  accounted := fun _ _ _ _ _ => rfl
  heard := fun _ _ _ _ _ => Nat.le_refl 0

/-- Only a first client is anywhere but between two actions or in a get. -/
theorem SyncInvariant.client_lt {a : ℕ} {pc : ClientPc} (hinv : SyncInvariant numClients st)
    (hpc : st.pc a = pc) (hready : pc ≠ .ready) (hget : pc.isGetting = false) : a < numClients := by
  by_contra hge
  cases hinv.others a (Nat.not_lt.mp hge) with
  | inl h => exact hready (hpc ▸ h)
  | inr h => rw [hpc, hget] at h; cases h

/-- A client has sent at most one request for each round it has entered. -/
theorem sentRounds_le (pc : ClientPc) (round a : ℕ) : sentRounds pc round a ≤ round := by
  unfold sentRounds
  split
  · split <;> omega
  · exact Nat.le_refl _

/-- A client has taken at most one request for each round its sender has entered. -/
theorem SyncInvariant.taken_le (hinv : SyncInvariant numClients st) {a b : ℕ} (ha : a < numClients)
    (hb : b < numClients) (hba : b ≠ a) : st.syncsTaken a b ≤ st.round b := by
  have haccounted := hinv.accounted a ha b hb hba
  have hsent := sentRounds_le (st.pc b) (st.round b) a
  unfold SyncsAccounted at haccounted
  omega

/-- **No synchronisation returns early.** A first client between two actions or in a get has not
overtaken another machine. -/
theorem SyncInvariant.round_le (hinv : SyncInvariant numClients st) {a : ℕ} (ha : a < numClients)
    (hpc : st.pc a = .ready ∨ (st.pc a).isGetting = true) {b : ℕ} (hb : b < numClients) :
    st.round a ≤ st.round b := by
  by_cases hba : b = a
  · rw [hba]
  · refine Nat.le_trans ?_ (hinv.taken_le ha hb hba)
    have hheard := hinv.heard a ha
    cases hcase : st.pc a with
    | ready => rw [hcase] at hheard; exact hheard b hb hba
    | getting => rw [hcase] at hheard; exact hheard b hb hba
    | sending | waiting | panicked =>
      rw [hcase] at hpc
      cases hpc with
      | inl h => cases h
      | inr h => cases h

/-! ## Steps -/

/-- A step of a client that takes and sends no request. -/
theorem SyncInvariant.goto {st' : NetworkState} {a : ℕ} {pc : ClientPc}
    (hinv : SyncInvariant numClients st) (hpc : st'.pc = Function.update st.pc a pc)
    (hround : ∀ b, b ≠ a → st'.round b = st.round b)
    (hscript : ∀ b, numClients ≤ b → ClientAction.sync ∉ st'.script b)
    (hchannel : st'.channel = st.channel) (hsyncs : st'.syncs = st.syncs)
    (htaken : st'.syncsTaken = st.syncsTaken)
    (hother : numClients ≤ a → pc = .ready ∨ pc.isGetting = true)
    (hsent : ∀ i < numClients, i ≠ a →
      sentRounds pc (st'.round a) i = sentRounds (st.pc a) (st.round a) i)
    (hheard : a < numClients → HeardFrom numClients a (st'.round a) (st.syncsTaken a) pc) :
    SyncInvariant numClients st' := by
  constructor
  case scripts => exact hscript
  case others =>
    intro b hb
    rw [hpc]
    by_cases hba : b = a
    · subst hba
      rw [Function.update_self]
      exact hother hb
    · rw [Function.update_of_ne hba]
      exact hinv.others b hb
  case senders => rw [hsyncs]; exact hinv.senders
  case channels => rw [hchannel]; exact hinv.channels
  case accounted =>
    intro a' ha' b hb hba
    have hold := hinv.accounted a' ha' b hb hba
    unfold SyncsAccounted at hold ⊢
    rw [htaken, hchannel, hsyncs, hold, hpc]
    by_cases hb' : b = a
    · subst hb'
      rw [Function.update_self, hsent a' ha' (Ne.symm hba)]
    · rw [Function.update_of_ne hb', hround b hb']
  case heard =>
    intro b hb
    rw [hpc, htaken]
    by_cases hba : b = a
    · subst hba
      rw [Function.update_self]
      exact hheard hb
    · rw [Function.update_of_ne hba, hround b hba]
      exact hinv.heard b hb

/-- A first client enters a round. -/
theorem SyncInvariant.beginSync {a : ℕ} {rest : List ClientAction}
    (hinv : SyncInvariant numClients st) (hpc : st.pc a = .ready)
    (hscript : st.script a = .sync :: rest) : SyncInvariant numClients (beginSync st a rest) := by
  have ha : a < numClients := by
    by_contra hge
    refine hinv.scripts a (Nat.not_lt.mp hge) ?_
    rw [hscript]
    exact List.mem_cons_self
  refine @SyncInvariant.goto _ _ _ a (.sending 0) hinv rfl ?_ ?_ rfl rfl rfl ?_ ?_ ?_
  · exact fun b hba => Function.update_of_ne hba _ _
  · intro b hb
    have hba : b ≠ a := by omega
    show _ ∉ Function.update st.script a rest b
    rw [Function.update_of_ne hba]
    exact hinv.scripts b hb
  · intro hge
    omega
  · intro i _ _
    show sentRounds (.sending 0) (Function.update st.round a (st.round a + 1) a) i = _
    rw [Function.update_self, hpc]
    simp [sentRounds]
  · intro _
    have hheard := hinv.heard a ha
    rw [hpc] at hheard
    show HeardFrom _ _ (Function.update st.round a (st.round a + 1) a) _ _
    rw [Function.update_self]
    exact ⟨Nat.succ_pos _, fun b hb hba => Nat.succ_le_succ (hheard b hb hba)⟩

/-- A get starts. -/
theorem SyncInvariant.beginGet {a server : ℕ} {key : String} {rest : List ClientAction}
    (hinv : SyncInvariant numClients st) (hpc : st.pc a = .ready)
    (hscript : st.script a = .get key server :: rest) :
    SyncInvariant numClients (beginGet st a key server rest) := by
  refine @SyncInvariant.goto _ _ _ a (.getting st.nextRequest server) hinv rfl
    (fun _ _ => rfl) ?_ rfl
    rfl rfl (fun _ => Or.inr rfl) ?_ ?_
  · intro b hb
    show _ ∉ Function.update st.script a rest b
    by_cases hba : b = a
    · subst hba
      rw [Function.update_self]
      intro hmem
      refine hinv.scripts b hb ?_
      rw [hscript]
      exact List.mem_cons_of_mem _ hmem
    · rw [Function.update_of_ne hba]
      exact hinv.scripts b hb
  · intro i _ _
    rw [hpc]
    rfl
  · intro ha
    have hheard := hinv.heard a ha
    rw [hpc] at hheard
    exact hheard

/-- A first client sends its request of the round to machine `i`. -/
theorem SyncInvariant.sendSyncTo {a i : ℕ} (hinv : SyncInvariant numClients st)
    (hpc : st.pc a = .sending i) (hi : i < numClients) (hia : i ≠ a) :
    SyncInvariant numClients (sendSyncTo st a i) := by
  have ha : a < numClients := hinv.client_lt hpc ClientPc.noConfusion rfl
  have hround : 1 ≤ st.round a := by
    have hheard := hinv.heard a ha
    rw [hpc] at hheard
    exact hheard.1
  refine { hinv with others := ?_, senders := ?_, accounted := ?_, heard := ?_ }
  · intro b hb
    have hba : b ≠ a := by omega
    show Function.update st.pc a _ b = _ ∨ (Function.update st.pc a _ b).isGetting = _
    rw [Function.update_of_ne hba]
    exact hinv.others b hb
  · intro b a' hne
    rw [ClientSync.sendSyncTo] at hne
    simp only [update₂_apply] at hne
    split at hne
    · next h => exact h.1 ▸ h.2 ▸ ⟨ha, hi, Ne.symm hia⟩
    · exact hinv.senders b a' hne
  · intro a' ha' b hb hba
    have hold := hinv.accounted a' ha' b hb hba
    unfold SyncsAccounted inFlight at hold ⊢
    rw [ClientSync.sendSyncTo]
    simp only [update₂_apply, List.length_append] at hold ⊢
    by_cases hb' : b = a
    · subst hb'
      rw [Function.update_self]
      rw [hpc, sentRounds] at hold
      rw [sentRounds]
      by_cases ha'i : a' = i
      · -- the request of this round is appended behind the earlier ones
        subst ha'i
        rw [if_pos (Nat.le_refl _)] at hold
        rw [if_pos ⟨rfl, rfl⟩, if_neg (by omega), List.length_append, List.length_singleton]
        omega
      · have hle : i + 1 ≤ a' ↔ i ≤ a' := by omega
        rw [if_neg (fun h : b = b ∧ a' = i => ha'i h.2)]
        simp only [hle]
        exact hold
    · rw [Function.update_of_ne hb', if_neg fun h => hb' h.1]
      exact hold
  · intro b hb
    show HeardFrom _ _ _ _ (Function.update st.pc a _ b)
    have hheard := hinv.heard b hb
    by_cases hba : b = a
    · subst hba
      rw [Function.update_self]
      rw [hpc] at hheard
      exact hheard
    · rw [Function.update_of_ne hba]
      exact hheard

/-- The effect on the messages of `b` of one that arrives. -/
theorem length_inFlight_concat (b : ℕ) (channel : List Packet) (syncs : List ℕ) (packet : Packet) :
    (inFlight b (channel ++ [packet]) syncs).length
      = (inFlight b channel syncs).length + (roundFrom b packet).toList.length := by
  unfold inFlight
  cases h : roundFrom b packet with
  | none => simp [h]
  | some r => simp [h, Nat.add_assoc]

/-- The effect on the messages of `b` of one that is taken. -/
theorem length_inFlight_cons (b : ℕ) (packet : Packet) (channel : List Packet) (syncs : List ℕ) :
    (inFlight b (packet :: channel) syncs).length
      = (inFlight b channel syncs).length + (roundFrom b packet).toList.length := by
  unfold inFlight
  cases h : roundFrom b packet with
  | none => simp [h]
  | some r => simp [h]

/-- The requests of `b` taken, with one more message. -/
theorem countTaken_eq (taken : ℕ → ℕ) (packet : Packet) (b : ℕ) :
    countTaken taken packet b = taken b + (roundFrom b packet).toList.length := by
  cases packet with
  | getResponse => rfl
  | clientSyncRequest index r =>
    by_cases hb : index = b
    · subst hb
      simp [countTaken, roundFrom]
    · simp [countTaken, roundFrom, hb, Function.update_of_ne (Ne.symm hb)]

/-- A request that has arrived is accounted for at its receiver. -/
theorem SyncInvariant.deliverSyncRequest {b a r : ℕ} {rest : List ℕ}
    (hinv : SyncInvariant numClients st) (hsyncs : st.syncs b a = r :: rest) :
    SyncInvariant numClients (deliverSyncRequest st b a r rest) := by
  have hsender := hinv.senders b a (by rw [hsyncs]; exact List.cons_ne_nil _ _)
  refine { hinv with senders := ?_, channels := ?_, accounted := ?_ }
  · intro b' a' hne
    rw [ClientSync.deliverSyncRequest] at hne
    simp only [update₂_apply] at hne
    split at hne
    · next h => rw [h.1, h.2]; exact hsender
    · exact hinv.senders b' a' hne
  · intro a' index r' hmem
    change _ ∈ Function.update st.channel a _ a' at hmem
    by_cases ha' : a' = a
    · subst ha'
      rw [Function.update_self, List.mem_append, List.mem_singleton] at hmem
      cases hmem with
      | inl hold => exact hinv.channels a' index r' hold
      | inr hnew => cases hnew; exact hsender
    · rw [Function.update_of_ne ha'] at hmem
      exact hinv.channels a' index r' hmem
  · intro a' ha' b' hb' hba'
    have hold := hinv.accounted a' ha' b' hb' hba'
    unfold SyncsAccounted at hold ⊢
    refine Eq.trans ?_ hold
    show st.syncsTaken a' b' + (inFlight b' (Function.update st.channel a _ a')
      (update₂ st.syncs b a rest b' a')).length = _
    rw [update₂_apply]
    by_cases haa : a' = a
    · subst haa
      rw [Function.update_self, length_inFlight_concat]
      by_cases hbb : b' = b
      · -- the request moves from the head of the connection to the end of the channel
        subst hbb
        rw [if_pos ⟨rfl, rfl⟩, hsyncs]
        simp [roundFrom, inFlight]
        omega
      · rw [if_neg fun h => hbb h.1]
        simp [roundFrom, Ne.symm hbb]
    · rw [Function.update_of_ne haa, if_neg fun h => haa h.2]

/-- A response arrives. -/
theorem SyncInvariant.deliverGetResponse {s a request : ℕ} {value : String}
    {rest : List (ℕ × String)} (hinv : SyncInvariant numClients st) :
    SyncInvariant numClients (deliverGetResponse st s a request value rest) := by
  refine { hinv with channels := ?_, accounted := ?_ }
  · intro a' index r' hmem
    change _ ∈ Function.update st.channel a _ a' at hmem
    by_cases ha' : a' = a
    · subst ha'
      rw [Function.update_self, List.mem_append, List.mem_singleton] at hmem
      exact hinv.channels a' index r' (hmem.resolve_right Packet.noConfusion)
    · rw [Function.update_of_ne ha'] at hmem
      exact hinv.channels a' index r' hmem
  · intro a' ha' b' hb' hba'
    have hold := hinv.accounted a' ha' b' hb' hba'
    unfold SyncsAccounted at hold ⊢
    refine Eq.trans ?_ hold
    show st.syncsTaken a' b' + (inFlight b' (Function.update st.channel a _ a')
      (st.syncs b' a')).length = _
    by_cases haa : a' = a
    · subst haa
      rw [Function.update_self, length_inFlight_concat]
      rfl
    · rw [Function.update_of_ne haa]

/-- A client takes the next message of its channel. -/
theorem SyncInvariant.take {st' : NetworkState} {a : ℕ} {pc : ClientPc} {packet : Packet}
    {rest : List Packet} (hinv : SyncInvariant numClients st)
    (hchannel : st.channel a = packet :: rest) (hpc : st'.pc = Function.update st.pc a pc)
    (hround : st'.round = st.round) (hscript : st'.script = st.script)
    (hchannel' : st'.channel = Function.update st.channel a rest) (hsyncs : st'.syncs = st.syncs)
    (htaken : st'.syncsTaken
      = Function.update st.syncsTaken a (countTaken (st.syncsTaken a) packet))
    (hother : numClients ≤ a → pc = .ready ∨ pc.isGetting = true)
    (hsent : ∀ i, sentRounds pc (st.round a) i = sentRounds (st.pc a) (st.round a) i)
    (hheard : a < numClients →
      HeardFrom numClients a (st.round a) (countTaken (st.syncsTaken a) packet) pc) :
    SyncInvariant numClients st' := by
  constructor
  case scripts => rw [hscript]; exact hinv.scripts
  case others =>
    intro b hb
    rw [hpc]
    by_cases hba : b = a
    · subst hba
      rw [Function.update_self]
      exact hother hb
    · rw [Function.update_of_ne hba]
      exact hinv.others b hb
  case senders => rw [hsyncs]; exact hinv.senders
  case channels =>
    intro a' index r hmem
    rw [hchannel'] at hmem
    by_cases ha' : a' = a
    · subst ha'
      rw [Function.update_self] at hmem
      exact hinv.channels a' index r (by rw [hchannel]; exact List.mem_cons_of_mem _ hmem)
    · rw [Function.update_of_ne ha'] at hmem
      exact hinv.channels a' index r hmem
  case accounted =>
    intro a' ha' b hb hba
    have hold := hinv.accounted a' ha' b hb hba
    have hsame : sentRounds (st'.pc b) (st.round b) a' = sentRounds (st.pc b) (st.round b) a' := by
      rw [hpc]
      by_cases hb' : b = a
      · subst hb'
        rw [Function.update_self, hsent]
      · rw [Function.update_of_ne hb']
    unfold SyncsAccounted at hold ⊢
    rw [hround, hsame, ← hold, htaken, hchannel', hsyncs]
    by_cases haa : a' = a
    · subst haa
      rw [Function.update_self, Function.update_self, hchannel, length_inFlight_cons, countTaken_eq]
      omega
    · rw [Function.update_of_ne haa, Function.update_of_ne haa]
  case heard =>
    intro b hb
    rw [hpc, hround, htaken]
    by_cases hba : b = a
    · subst hba
      rw [Function.update_self, Function.update_self]
      exact hheard hb
    · rw [Function.update_of_ne hba, Function.update_of_ne hba]
      exact hinv.heard b hb

/-- Taking a message loses no request. -/
theorem le_countTaken (taken : ℕ → ℕ) (packet : Packet) (b : ℕ) :
    taken b ≤ countTaken taken packet b := by
  rw [countTaken_eq]
  exact Nat.le_add_right _ _

/-- A synchronisation takes a message. -/
theorem SyncInvariant.takeSync {a i : ℕ} {indices : List ℕ} {packet : Packet} {rest : List Packet}
    (hinv : SyncInvariant numClients st) (hpc : st.pc a = .waiting i indices)
    (hchannel : st.channel a = packet :: rest) :
    SyncInvariant numClients (takeSync st a i indices packet rest) := by
  have ha : a < numClients := hinv.client_lt hpc ClientPc.noConfusion rfl
  refine @SyncInvariant.take _ _ _ a (.waiting (i + 1) (recordAck indices packet)) packet rest hinv
    hchannel rfl rfl rfl rfl rfl rfl (fun hge => absurd ha (Nat.not_lt.mpr hge)) ?_ ?_
  · intro i'
    rw [hpc]
    rfl
  · intro _
    have hheard := hinv.heard a ha
    rw [hpc] at hheard
    refine ⟨⟨hheard.1.1, ?_⟩, ?_⟩
    · intro b hb hba
      exact Nat.le_trans (hheard.1.2 b hb hba) (Nat.succ_le_succ (le_countTaken _ _ _))
    · intro x hx
      have hold : x ∈ indices → x < numClients ∧ x ≠ a ∧
          st.round a ≤ countTaken (st.syncsTaken a) packet x := by
        intro hmem
        obtain ⟨hlt, hne, hle⟩ := hheard.2 x hmem
        exact ⟨hlt, hne, Nat.le_trans hle (le_countTaken _ _ _)⟩
      cases packet with
      | getResponse => exact hold hx
      | clientSyncRequest index r =>
        rw [recordAck, List.mem_append, List.mem_singleton] at hx
        cases hx with
        | inl hmem => exact hold hmem
        | inr hnew =>
          -- the machine just heard of
          subst hnew
          obtain ⟨hlt, -, hne⟩ := hinv.channels a x r (by rw [hchannel]; exact List.mem_cons_self)
          refine ⟨hlt, hne, ?_⟩
          have hround := hheard.1.2 x hlt hne
          rw [countTaken, Function.update_self]
          exact hround

/-- A get takes a message and returns. -/
theorem SyncInvariant.finishGet {a request server : ℕ} {packet : Packet} {rest : List Packet}
    (hinv : SyncInvariant numClients st) (hpc : st.pc a = .getting request server)
    (hchannel : st.channel a = packet :: rest) :
    SyncInvariant numClients (finishGet st a request packet rest) := by
  refine @SyncInvariant.take _ _ _ a .ready packet rest hinv hchannel rfl rfl rfl rfl rfl rfl
    (fun _ => Or.inl rfl) ?_ ?_
  · intro i
    rw [hpc]
    rfl
  · intro ha b hb hba
    have hheard := hinv.heard a ha
    rw [hpc] at hheard
    exact Nat.le_trans (hheard b hb hba) (le_countTaken _ _ _)

/-- Acknowledgements of as many machines as there are others are those of all others. -/
theorem mem_of_dedup_length {a : ℕ} {indices : List ℕ} (ha : a < numClients)
    (hmem : ∀ x ∈ indices, x < numClients ∧ x ≠ a)
    (hacks : indices.dedup.length = numClients - 1) {b : ℕ} (hb : b < numClients) (hba : b ≠ a) :
    b ∈ indices := by
  have hsub : indices.toFinset ⊆ (Finset.range numClients).erase a := by
    intro x hx
    obtain ⟨hlt, hne⟩ := hmem x (List.mem_toFinset.mp hx)
    exact Finset.mem_erase.mpr ⟨hne, Finset.mem_range.mpr hlt⟩
  have hcard : ((Finset.range numClients).erase a).card ≤ indices.toFinset.card := by
    rw [Finset.card_erase_of_mem (Finset.mem_range.mpr ha), Finset.card_range, List.card_toFinset,
      hacks]
  have heq := Finset.eq_of_subset_of_card_le hsub hcard
  rw [← List.mem_toFinset, heq]
  exact Finset.mem_erase.mpr ⟨hba, Finset.mem_range.mpr hb⟩

/-- A synchronisation returns: it has heard of all other machines. -/
theorem SyncInvariant.endSync {a i : ℕ} {indices : List ℕ} (hinv : SyncInvariant numClients st)
    (hpc : st.pc a = .waiting i indices) (hacks : indices.dedup.length = numClients - 1) :
    SyncInvariant numClients (st.goto a .ready) := by
  have ha : a < numClients := hinv.client_lt hpc ClientPc.noConfusion rfl
  refine @SyncInvariant.goto _ _ _ a .ready hinv rfl (fun _ _ => rfl) hinv.scripts rfl rfl rfl
    (fun _ => Or.inl rfl) ?_ ?_
  · intro i' _ _
    rw [hpc]
    rfl
  · intro _ b hb hba
    have hheard := hinv.heard a ha
    rw [hpc] at hheard
    have hmem := mem_of_dedup_length ha
      (fun x hx => ⟨(hheard.2 x hx).1, (hheard.2 x hx).2.1⟩) hacks hb hba
    exact (hheard.2 b hmem).2.2

/-- Every step keeps the invariant. -/
theorem SyncInvariant.step {st' : NetworkState} {l : NetworkLabel}
    (hinv : SyncInvariant numClients st) (hs : networkStep numClients st l = some st') :
    SyncInvariant numClients st' := by
  cases networkMove_of_step hs with
  | beginSync hpc hscript => exact hinv.beginSync hpc hscript
  | beginGet hpc hscript => exact hinv.beginGet hpc hscript
  | @skipSelf a hpc ha =>
    refine @SyncInvariant.goto _ _ _ a (.sending (a + 1)) hinv rfl (fun _ _ => rfl) hinv.scripts rfl
      rfl rfl (fun hge => absurd ha (Nat.not_lt.mpr hge)) ?_ ?_
    · intro i _ hia
      have hle : a + 1 ≤ i ↔ a ≤ i := by omega
      show sentRounds (.sending (a + 1)) (st.round a) i = _
      rw [hpc]
      simp only [sentRounds, hle]
    · intro _
      have hheard := hinv.heard a ha
      rw [hpc] at hheard
      exact hheard
  | sendSyncTo hpc hi hia => exact hinv.sendSyncTo hpc hi hia
  | @beginWait a i hpc hi =>
    have ha : a < numClients := hinv.client_lt hpc ClientPc.noConfusion rfl
    refine @SyncInvariant.goto _ _ _ a (.waiting 0 []) hinv rfl (fun _ _ => rfl) hinv.scripts rfl
      rfl rfl (fun hge => absurd ha (Nat.not_lt.mpr hge)) ?_ ?_
    · intro i' hi' _
      show st.round a = _
      rw [hpc, sentRounds, if_neg (by omega)]
    · intro _
      have hheard := hinv.heard a ha
      rw [hpc] at hheard
      exact ⟨hheard, fun x hx => absurd hx List.not_mem_nil⟩
  | finishGet hpc hchannel => exact hinv.finishGet hpc hchannel
  | takeSync hpc hchannel _ => exact hinv.takeSync hpc hchannel
  | @failSync a i indices hpc _ _ =>
    have ha : a < numClients := hinv.client_lt hpc ClientPc.noConfusion rfl
    refine @SyncInvariant.goto _ _ _ a .panicked hinv rfl (fun _ _ => rfl) hinv.scripts rfl rfl rfl
      (fun hge => absurd ha (Nat.not_lt.mpr hge)) ?_ (fun _ => trivial)
    intro i' _ _
    rw [hpc]
    rfl
  | endSync hpc _ hacks => exact hinv.endSync hpc hacks
  | deliverSync hsyncs => exact hinv.deliverSyncRequest hsyncs
  | deliverResponse _ => exact hinv.deliverGetResponse
  | serverReceive _ => exact { hinv with }
  | answer _ => exact { hinv with }

end TwigKV.ClientSync
