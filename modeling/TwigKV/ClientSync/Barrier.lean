import TwigKV.ClientSync.ClientNetwork
import Mathlib.Data.Finset.Card
import Mathlib.Data.List.Dedup

/-! # The client barrier

With nothing but synchronisation requests on the channels, a call of `sync_with_other_clients`
returns only after every other client machine has entered the same round, in every run. The call
takes a fixed number of messages, though, and a fast client's request of the next round can be among
them; then the acknowledgements do not add up and the client panics. No client panics as long as
every request is taken in the round it was sent in, which two client machines always do
(`barrier_holds`). -/

namespace TwigKV.ClientSync

/-- Every client machine runs any number of synchronisation rounds and nothing else; there are no
other clients. -/
def syncScript (numClients : ℕ) (rounds : ℕ → ℕ) (a : ℕ) : List ClientAction :=
  if a < numClients then List.replicate (rounds a) .sync else []

/-- No client machine's call has ended in the panic. -/
def NoPanic (numClients : ℕ) (st : NetworkState) : Prop :=
  ∀ a < numClients, st.pc a ≠ .panicked

/-- A client machine whose calls have returned has not overtaken another one: every other machine
has entered the round of the last call. -/
def ReturnsSafely (numClients : ℕ) (st : NetworkState) : Prop :=
  ∀ a < numClients, st.pc a = .ready → ∀ b < numClients, st.round a ≤ st.round b

/-- A synchronisation request is taken in the round it was sent in. -/
def TakenInRound (st : NetworkState) : NetworkLabel → Prop
  | .receive a => ∀ index r rest, st.channel a = .clientSyncRequest index r :: rest → r = st.round a
  | _ => True

/-! ## Messages of one sender -/

/-- The round of a synchronisation request of client `b`. -/
def roundFrom (b : ℕ) : Packet → Option ℕ
  | .getResponse _ _ => none
  | .clientSyncRequest index r => if index = b then some r else none

/-- The rounds of `b`'s requests that are under way to a client: those in its channel and those
still on the connection. -/
def inFlight (b : ℕ) (channel : List Packet) (syncs : List ℕ) : List ℕ :=
  channel.filterMap (roundFrom b) ++ syncs

/-- The number of requests a client has sent to machine `a`, from where it stands and the round it
is in. -/
def sentRounds (pc : ClientPc) (round a : ℕ) : ℕ :=
  match pc with
  | .sending i => if i ≤ a then round - 1 else round
  | _ => round

/-- `b`'s requests to `a` carry consecutive rounds: those taken come first, the others are under way
in order. -/
def QueueOk (st : NetworkState) (b a : ℕ) : Prop :=
  st.syncsTaken a b ≤ sentRounds (st.pc b) (st.round b) a ∧
    inFlight b (st.channel a) (st.syncs b a)
      = List.range' (st.syncsTaken a b + 1)
          (sentRounds (st.pc b) (st.round b) a - st.syncsTaken a b)

/-- What a client has taken from the others, from where it stands. -/
def PhaseOk (numClients a : ℕ) (round : ℕ) (taken : ℕ → ℕ) : ClientPc → Prop
  | .ready => ∀ b < numClients, b ≠ a → taken b = round
  | .sending _ => 1 ≤ round ∧ ∀ b < numClients, b ≠ a → taken b + 1 = round
  | .waiting i indices => 1 ≤ round ∧ i = indices.length ∧ i ≤ numClients - 1 ∧
      (∀ x ∈ indices, x < numClients ∧ x ≠ a) ∧
      ∀ b < numClients, b ≠ a → taken b + 1 = round + indices.count b
  | .getting _ _ => False
  | .panicked => True

/-- The invariant of runs with nothing but synchronisation. -/
structure BarrierInvariant (numClients : ℕ) (st : NetworkState) : Prop where
  /-- No script has a get. -/
  scripts : ∀ a, ∀ action ∈ st.script a, action = .sync
  /-- Only client machines do anything. -/
  others : ∀ a, numClients ≤ a → st.pc a = .ready ∧ st.script a = []
  /-- Nothing is under way to a server. -/
  requests : ∀ a s, st.requests a s = []
  /-- Nothing is waiting at a server. -/
  unanswered : ∀ s, st.unanswered s = []
  /-- Nothing is under way from a server. -/
  responses : ∀ s a, st.responses s a = []
  /-- Requests go between different client machines. -/
  senders : ∀ b a, st.syncs b a ≠ [] → b < numClients ∧ b ≠ a
  /-- Channels hold synchronisation requests of other client machines. -/
  channels : ∀ a, ∀ packet ∈ st.channel a,
    ∃ index r, packet = .clientSyncRequest index r ∧ index < numClients ∧ index ≠ a
  /-- The requests of every pair of client machines. -/
  queues : ∀ a < numClients, ∀ b < numClients, b ≠ a → QueueOk st b a
  /-- What every client machine has taken. -/
  phases : ∀ a < numClients, PhaseOk numClients a (st.round a) (st.syncsTaken a) (st.pc a)

/-- The invariant holds at the start. -/
theorem barrierInvariant_initial (numClients : ℕ) (rounds : ℕ → ℕ) :
    BarrierInvariant numClients (.initial (syncScript numClients rounds)) := by
  constructor
  case scripts =>
    intro a action haction
    change action ∈ syncScript numClients rounds a at haction
    unfold syncScript at haction
    split at haction
    · exact List.eq_of_mem_replicate haction
    · exact absurd haction List.not_mem_nil
  case others =>
    intro a ha
    exact ⟨rfl, if_neg (Nat.not_lt.mpr ha)⟩
  case requests => exact fun _ _ => rfl
  case unanswered => exact fun _ => rfl
  case responses => exact fun _ _ => rfl
  case senders => exact fun _ _ h => absurd rfl h
  case channels => exact fun _ packet h => absurd h List.not_mem_nil
  case queues => exact fun _ _ _ _ _ => ⟨Nat.le_refl 0, rfl⟩
  case phases => exact fun _ _ _ _ _ => rfl

/-- Only client machines are anywhere but between two actions. -/
theorem BarrierInvariant.client_lt {numClients : ℕ} {st : NetworkState} {a : ℕ} {pc : ClientPc}
    (hinv : BarrierInvariant numClients st) (hpc : st.pc a = pc) (hne : pc ≠ .ready) :
    a < numClients := by
  by_contra hge
  rw [(hinv.others a (Nat.not_lt.mp hge)).1] at hpc
  exact hne hpc.symm

/-! ## Steps of the sender -/

/-- A step that only moves a client's program counter, without changing what it has sent or
taken. -/
theorem BarrierInvariant.goto {numClients : ℕ} {st : NetworkState} {a : ℕ} {pc : ClientPc}
    (hinv : BarrierInvariant numClients st) (ha : a < numClients)
    (hsent : ∀ i < numClients, i ≠ a →
      sentRounds pc (st.round a) i = sentRounds (st.pc a) (st.round a) i)
    (hphase : PhaseOk numClients a (st.round a) (st.syncsTaken a) pc) :
    BarrierInvariant numClients (st.goto a pc) := by
  refine { hinv with others := ?_, queues := ?_, phases := ?_ }
  · intro a' ha'
    have hne : a' ≠ a := by omega
    rw [NetworkState.goto]
    simp only
    rw [Function.update_of_ne hne]
    exact hinv.others a' ha'
  · intro a' ha' b hb hba
    obtain ⟨hle, hqueue⟩ := hinv.queues a' ha' b hb hba
    have hsame : sentRounds ((st.goto a pc).pc b) (st.round b) a'
        = sentRounds (st.pc b) (st.round b) a' := by
      rw [NetworkState.goto]
      simp only
      by_cases hb' : b = a
      · subst hb'
        rw [Function.update_self]
        exact hsent a' ha' (Ne.symm hba)
      · rw [Function.update_of_ne hb']
    rw [← hsame] at hle hqueue
    exact ⟨hle, hqueue⟩
  · intro a' ha'
    rw [NetworkState.goto]
    simp only
    by_cases hne : a' = a
    · subst hne
      rw [Function.update_self]
      exact hphase
    · rw [Function.update_of_ne hne]
      exact hinv.phases a' ha'

/-- A client enters a round. -/
theorem BarrierInvariant.beginSync {numClients : ℕ} {st : NetworkState} {a : ℕ}
    {rest : List ClientAction} (hinv : BarrierInvariant numClients st) (hpc : st.pc a = .ready)
    (hscript : st.script a = .sync :: rest) :
    BarrierInvariant numClients (beginSync st a rest) := by
  have ha : a < numClients := by
    by_contra hge
    have hnil := (hinv.others a (Nat.not_lt.mp hge)).2
    rw [hscript] at hnil
    exact absurd hnil (List.cons_ne_nil _ _)
  refine { hinv with scripts := ?_, others := ?_, queues := ?_, phases := ?_ }
  · intro a' action haction
    rw [ClientSync.beginSync] at haction
    simp only at haction
    by_cases hne : a' = a
    · subst hne
      rw [Function.update_self] at haction
      exact hinv.scripts a' action (by rw [hscript]; exact List.mem_cons_of_mem _ haction)
    · rw [Function.update_of_ne hne] at haction
      exact hinv.scripts a' action haction
  · intro a' ha'
    have hne : a' ≠ a := by omega
    rw [ClientSync.beginSync]
    simp only
    rw [Function.update_of_ne hne, Function.update_of_ne hne]
    exact hinv.others a' ha'
  · intro a' ha' b hb hba
    obtain ⟨hle, hqueue⟩ := hinv.queues a' ha' b hb hba
    have hsame : sentRounds ((ClientSync.beginSync st a rest).pc b)
          ((ClientSync.beginSync st a rest).round b) a'
        = sentRounds (st.pc b) (st.round b) a' := by
      rw [ClientSync.beginSync]
      simp only
      by_cases hb' : b = a
      · subst hb'
        rw [Function.update_self, Function.update_self, hpc]
        show (if 0 ≤ a' then st.round b + 1 - 1 else st.round b + 1) = st.round b
        rw [if_pos (Nat.zero_le _), Nat.add_sub_cancel]
      · rw [Function.update_of_ne hb', Function.update_of_ne hb']
    rw [← hsame] at hle hqueue
    exact ⟨hle, hqueue⟩
  · intro a' ha'
    rw [ClientSync.beginSync]
    simp only
    by_cases hne : a' = a
    · subst hne
      have hphase := hinv.phases a' ha'
      rw [hpc] at hphase
      rw [Function.update_self, Function.update_self]
      exact ⟨by omega, fun b hb hba => by rw [hphase b hb hba]⟩
    · rw [Function.update_of_ne hne, Function.update_of_ne hne]
      exact hinv.phases a' ha'

/-- A client sends its request of the round to machine `i`. -/
theorem BarrierInvariant.sendSyncTo {numClients : ℕ} {st : NetworkState} {a i : ℕ}
    (hinv : BarrierInvariant numClients st) (ha : a < numClients) (hpc : st.pc a = .sending i)
    (hi : i < numClients) (hia : i ≠ a) :
    BarrierInvariant numClients (sendSyncTo st a i) := by
  have hphase := hinv.phases a ha
  rw [hpc] at hphase
  obtain ⟨hround, htaken⟩ := hphase
  refine { hinv with others := ?_, senders := ?_, queues := ?_, phases := ?_ }
  · intro a' ha'
    have hne : a' ≠ a := by omega
    rw [ClientSync.sendSyncTo]
    simp only
    rw [Function.update_of_ne hne]
    exact hinv.others a' ha'
  · intro b a' hne
    rw [ClientSync.sendSyncTo] at hne
    simp only [update₂_apply] at hne
    split at hne
    · next h => exact ⟨by rw [h.1]; exact ha, by rw [h.1, h.2]; exact Ne.symm hia⟩
    · exact hinv.senders b a' hne
  · intro a' ha' b hb hba
    obtain ⟨hle, hqueue⟩ := hinv.queues a' ha' b hb hba
    rw [QueueOk, ClientSync.sendSyncTo]
    simp only [update₂_apply]
    by_cases hb' : b = a
    · subst hb'
      rw [Function.update_self]
      rw [hpc, sentRounds] at hle hqueue
      rw [sentRounds]
      by_cases ha'i : a' = i
      · subst ha'i
        -- the request of this round is appended behind the earlier ones
        rw [if_pos (Nat.le_refl _)] at hle hqueue
        rw [if_neg (by omega), if_pos ⟨rfl, rfl⟩]
        refine ⟨by omega, ?_⟩
        have hsucc : st.round b - st.syncsTaken a' b
            = st.round b - 1 - st.syncsTaken a' b + 1 := by omega
        have hnext : st.syncsTaken a' b + 1 + (st.round b - 1 - st.syncsTaken a' b)
            = st.round b := by omega
        rw [inFlight, ← List.append_assoc, ← inFlight, hqueue, hsucc, List.range'_1_concat, hnext]
      · have hle' : i + 1 ≤ a' ↔ i ≤ a' := by omega
        rw [if_neg (fun h : b = b ∧ a' = i => ha'i h.2)]
        simp only [hle']
        exact ⟨hle, hqueue⟩
    · rw [Function.update_of_ne hb', if_neg fun h => hb' h.1]
      exact ⟨hle, hqueue⟩
  · intro a' ha'
    rw [ClientSync.sendSyncTo]
    simp only
    by_cases hne : a' = a
    · subst hne
      rw [Function.update_self]
      exact ⟨hround, htaken⟩
    · rw [Function.update_of_ne hne]
      exact hinv.phases a' ha'

/-- The connection from `b` to `a` delivers: the same requests are under way. -/
theorem BarrierInvariant.deliverSyncRequest {numClients : ℕ} {st : NetworkState} {b a r : ℕ}
    {rest : List ℕ} (hinv : BarrierInvariant numClients st) (hsyncs : st.syncs b a = r :: rest) :
    BarrierInvariant numClients (deliverSyncRequest st b a r rest) := by
  have hsender := hinv.senders b a (by rw [hsyncs]; exact List.cons_ne_nil _ _)
  refine { hinv with senders := ?_, channels := ?_, queues := ?_ }
  · intro b' a' hne
    rw [ClientSync.deliverSyncRequest] at hne
    simp only [update₂_apply] at hne
    split at hne
    · next h => rw [h.1, h.2]; exact hsender
    · exact hinv.senders b' a' hne
  · intro a' packet hpacket
    change packet ∈ Function.update st.channel a (st.channel a ++ [.clientSyncRequest b r]) a'
      at hpacket
    by_cases ha' : a' = a
    · subst ha'
      rw [Function.update_self, List.mem_append, List.mem_singleton] at hpacket
      cases hpacket with
      | inl hold => exact hinv.channels a' packet hold
      | inr hnew => exact ⟨b, r, hnew, hsender⟩
    · rw [Function.update_of_ne ha'] at hpacket
      exact hinv.channels a' packet hpacket
  · intro a' ha' b' hb' hba'
    obtain ⟨hle, hqueue⟩ := hinv.queues a' ha' b' hb' hba'
    refine ⟨hle, ?_⟩
    have hsame : inFlight b' ((ClientSync.deliverSyncRequest st b a r rest).channel a')
          ((ClientSync.deliverSyncRequest st b a r rest).syncs b' a')
        = inFlight b' (st.channel a') (st.syncs b' a') := by
      show inFlight b' (Function.update st.channel a (st.channel a ++ [.clientSyncRequest b r]) a')
          (update₂ st.syncs b a rest b' a') = _
      rw [update₂_apply]
      by_cases haa : a' = a
      · subst haa
        rw [Function.update_self, inFlight, inFlight, List.filterMap_append]
        by_cases hbb : b' = b
        · -- the request moves from the head of the connection to the end of the channel
          subst hbb
          rw [if_pos ⟨rfl, rfl⟩, hsyncs]
          simp [roundFrom]
        · rw [if_neg (fun h : b' = b ∧ a' = a' => hbb h.1)]
          simp [roundFrom, Ne.symm hbb]
      · rw [Function.update_of_ne haa, if_neg (fun h : b' = b ∧ a' = a => haa h.2)]
    rw [hsame]
    exact hqueue

/-! ## Steps of the receiver -/

/-- A request of `b` at the head of the channel of `a` is `b`'s next one. -/
theorem QueueOk.head {st : NetworkState} {b a r : ℕ} {rest : List Packet} (hqueue : QueueOk st b a)
    (hchannel : st.channel a = .clientSyncRequest b r :: rest) :
    r = st.syncsTaken a b + 1 ∧
      st.syncsTaken a b + 1 ≤ sentRounds (st.pc b) (st.round b) a ∧
      inFlight b rest (st.syncs b a)
        = List.range' (st.syncsTaken a b + 1 + 1)
            (sentRounds (st.pc b) (st.round b) a - (st.syncsTaken a b + 1)) := by
  obtain ⟨hle, hflight⟩ := hqueue
  have hcons : inFlight b (st.channel a) (st.syncs b a) = r :: inFlight b rest (st.syncs b a) := by
    rw [hchannel, inFlight, List.filterMap_cons, roundFrom, if_pos rfl]
    rfl
  rw [hcons] at hflight
  cases hn : sentRounds (st.pc b) (st.round b) a - st.syncsTaken a b with
  | zero =>
    rw [hn, List.range'_zero] at hflight
    exact absurd hflight (List.cons_ne_nil _ _)
  | succ n =>
    rw [hn, List.range'_succ, List.cons.injEq] at hflight
    have hpred : sentRounds (st.pc b) (st.round b) a - (st.syncsTaken a b + 1) = n := by omega
    exact ⟨hflight.1, by omega, by rw [hpred]; exact hflight.2⟩

/-- The request at the head of a channel is one of another client machine. -/
theorem BarrierInvariant.head_index {numClients : ℕ} {st : NetworkState} {a index r : ℕ}
    {rest : List Packet} (hinv : BarrierInvariant numClients st)
    (hchannel : st.channel a = .clientSyncRequest index r :: rest) :
    index < numClients ∧ index ≠ a := by
  obtain ⟨index', r', heq, hindex⟩ := hinv.channels a (.clientSyncRequest index r)
    (by rw [hchannel]; exact List.mem_cons_self)
  cases heq
  exact hindex

/-- A call that finds a request of a machine it has already heard of finds one of a later round. -/
theorem BarrierInvariant.head_round {numClients : ℕ} {st : NetworkState} {a i index r : ℕ}
    {indices : List ℕ} {rest : List Packet} (hinv : BarrierInvariant numClients st)
    (ha : a < numClients) (hpc : st.pc a = .waiting i indices)
    (hchannel : st.channel a = .clientSyncRequest index r :: rest) :
    r = st.round a + indices.count index := by
  obtain ⟨hindex, hne⟩ := hinv.head_index hchannel
  have hphase := hinv.phases a ha
  rw [hpc] at hphase
  have htaken := hphase.2.2.2.2 index hindex hne
  have hhead := ((hinv.queues a ha index hindex hne).head hchannel).1
  omega

/-- A client takes the next request of its channel. -/
theorem BarrierInvariant.takeSync {numClients : ℕ} {st : NetworkState} {a i index r : ℕ}
    {indices : List ℕ} {rest : List Packet} (hinv : BarrierInvariant numClients st)
    (ha : a < numClients) (hpc : st.pc a = .waiting i indices)
    (hchannel : st.channel a = .clientSyncRequest index r :: rest) (hi : i < numClients - 1) :
    BarrierInvariant numClients
      (takeSync st a i indices (.clientSyncRequest index r) rest) := by
  have hindex := hinv.head_index hchannel
  have hphase := hinv.phases a ha
  rw [hpc] at hphase
  obtain ⟨hround, hlength, -, hmem, htaken⟩ := hphase
  refine { hinv with others := ?_, channels := ?_, queues := ?_, phases := ?_ }
  · intro a' ha'
    have hne : a' ≠ a := by omega
    rw [ClientSync.takeSync]
    simp only
    rw [Function.update_of_ne hne]
    exact hinv.others a' ha'
  · intro a' packet hpacket
    rw [ClientSync.takeSync] at hpacket
    simp only at hpacket
    by_cases ha' : a' = a
    · subst ha'
      rw [Function.update_self] at hpacket
      exact hinv.channels a' packet (by rw [hchannel]; exact List.mem_cons_of_mem _ hpacket)
    · rw [Function.update_of_ne ha'] at hpacket
      exact hinv.channels a' packet hpacket
  · intro a' ha' b hb hba
    have hqueue := hinv.queues a' ha' b hb hba
    rw [QueueOk, ClientSync.takeSync]
    simp only
    -- the client that takes keeps the number of requests it has sent
    have hsame : sentRounds (Function.update st.pc a (.waiting (i + 1)
          (recordAck indices (.clientSyncRequest index r))) b) (st.round b) a'
        = sentRounds (st.pc b) (st.round b) a' := by
      by_cases hb' : b = a
      · subst hb'
        rw [Function.update_self, hpc]
        rfl
      · rw [Function.update_of_ne hb']
    rw [hsame]
    by_cases haa : a' = a
    · subst haa
      rw [Function.update_self, Function.update_self, countTaken]
      by_cases hbi : b = index
      · subst hbi
        rw [Function.update_self]
        exact (hqueue.head hchannel).2
      · obtain ⟨hle, hflight⟩ := hqueue
        rw [Function.update_of_ne hbi]
        rw [hchannel, inFlight, List.filterMap_cons, roundFrom, if_neg (Ne.symm hbi)] at hflight
        exact ⟨hle, hflight⟩
    · rw [Function.update_of_ne haa, Function.update_of_ne haa]
      exact hqueue
  · intro a' ha'
    rw [ClientSync.takeSync]
    simp only
    by_cases hne : a' = a
    · subst hne
      rw [Function.update_self, Function.update_self, recordAck, countTaken]
      refine ⟨hround, ?_, by omega, ?_, ?_⟩
      · rw [List.length_append, List.length_singleton, hlength]
      · intro x hx
        rw [List.mem_append, List.mem_singleton] at hx
        cases hx with
        | inl hold => exact hmem x hold
        | inr hnew => rw [hnew]; exact hindex
      · intro b hb hba
        have hb' := htaken b hb hba
        rw [List.count_append, List.count_singleton]
        by_cases hbi : b = index
        · subst hbi
          rw [Function.update_self, beq_self_eq_true, if_pos rfl]
          omega
        · rw [Function.update_of_ne hbi, if_neg (by simpa using Ne.symm hbi)]
          omega
    · rw [Function.update_of_ne hne, Function.update_of_ne hne]
      exact hinv.phases a' ha'

/-- Acknowledgements from as many machines as there are others are one from each of them. -/
theorem count_eq_one_of_length_dedup {numClients a b : ℕ} {indices : List ℕ} (ha : a < numClients)
    (hmem : ∀ x ∈ indices, x < numClients ∧ x ≠ a) (hlength : indices.length = numClients - 1)
    (hacks : indices.dedup.length = numClients - 1) (hb : b < numClients) (hba : b ≠ a) :
    indices.count b = 1 := by
  have hdedup : indices.dedup = indices :=
    (List.dedup_sublist indices).eq_of_length (by rw [hacks, hlength])
  have hnodup : indices.Nodup := hdedup ▸ List.nodup_dedup indices
  have hsub : indices.toFinset ⊆ (Finset.range numClients).erase a := by
    intro x hx
    have hx' := hmem x (List.mem_toFinset.mp hx)
    exact Finset.mem_erase.mpr ⟨hx'.2, Finset.mem_range.mpr hx'.1⟩
  have hcard : ((Finset.range numClients).erase a).card ≤ indices.toFinset.card := by
    rw [Finset.card_erase_of_mem (Finset.mem_range.mpr ha), Finset.card_range,
      List.toFinset_card_of_nodup hnodup, hlength]
  have hall : b ∈ indices.toFinset := by
    rw [Finset.eq_of_subset_of_card_le hsub hcard]
    exact Finset.mem_erase.mpr ⟨hba, Finset.mem_range.mpr hb⟩
  exact List.count_eq_one_of_mem hnodup (List.mem_toFinset.mp hall)

/-! ## Every step -/

/-- Every step keeps the invariant. -/
theorem BarrierInvariant.step {numClients : ℕ} {st st' : NetworkState} {l : NetworkLabel}
    (hinv : BarrierInvariant numClients st) (hs : networkStep numClients st l = some st') :
    BarrierInvariant numClients st' := by
  cases networkMove_of_step hs with
  | beginSync hpc hscript => exact hinv.beginSync hpc hscript
  | @beginGet a server key rest hpc hscript =>
    have hget := hinv.scripts a (.get key server) (by rw [hscript]; exact List.mem_cons_self)
    cases hget
  | @skipSelf a hpc ha =>
    have hphase := hinv.phases a ha
    rw [hpc] at hphase
    refine hinv.goto ha ?_ hphase
    intro i _ hia
    have hle : a + 1 ≤ i ↔ a ≤ i := by omega
    rw [hpc, sentRounds, sentRounds]
    simp only [hle]
  | @sendSyncTo a i hpc hi hia =>
    exact hinv.sendSyncTo (hinv.client_lt hpc ClientPc.noConfusion) hpc hi hia
  | @beginWait a i hpc hi =>
    have ha := hinv.client_lt hpc ClientPc.noConfusion
    have hphase := hinv.phases a ha
    rw [hpc] at hphase
    refine hinv.goto ha ?_ ?_
    · intro i' hi' _
      rw [hpc]
      show st.round a = if i ≤ i' then st.round a - 1 else st.round a
      rw [if_neg (by omega)]
    · refine ⟨hphase.1, rfl, Nat.zero_le _, ?_, ?_⟩
      · intro x hx
        exact absurd hx List.not_mem_nil
      · intro b hb hba
        rw [List.count_nil]
        exact hphase.2 b hb hba
  | @finishGet a request server packet rest hpc hchannel =>
    have ha := hinv.client_lt hpc ClientPc.noConfusion
    have hphase := hinv.phases a ha
    rw [hpc] at hphase
    exact hphase.elim
  | @takeSync a i indices packet rest hpc hchannel hi =>
    have ha := hinv.client_lt hpc ClientPc.noConfusion
    obtain ⟨index, r, hpacket, -⟩ := hinv.channels a packet
      (by rw [hchannel]; exact List.mem_cons_self)
    subst hpacket
    exact hinv.takeSync ha hpc hchannel hi
  | @failSync a i indices hpc hi hacks =>
    refine hinv.goto (hinv.client_lt hpc ClientPc.noConfusion) ?_ trivial
    intro i' _ _
    rw [hpc]
    rfl
  | @endSync a i indices hpc hi hacks =>
    have ha := hinv.client_lt hpc ClientPc.noConfusion
    have hphase := hinv.phases a ha
    rw [hpc] at hphase
    obtain ⟨-, hlength, hle, hmem, htaken⟩ := hphase
    refine hinv.goto ha ?_ ?_
    · intro i' _ _
      rw [hpc]
      rfl
    · intro b hb hba
      have hcount := count_eq_one_of_length_dedup ha hmem (by omega) hacks hb hba
      have hb' := htaken b hb hba
      omega
  | deliverSync hsyncs => exact hinv.deliverSyncRequest hsyncs
  | @deliverResponse s a request value rest hresponses =>
    rw [hinv.responses s a] at hresponses
    cases hresponses
  | @serverReceive s a request key rest hrequests =>
    rw [hinv.requests a s] at hrequests
    cases hrequests
  | @answer s i a request key value rest hunanswered =>
    rw [hinv.unanswered s] at hunanswered
    cases hunanswered

/-- The invariant holds in every state of every run. -/
theorem barrierInvariant_of_reachable {numClients : ℕ} {rounds : ℕ → ℕ} {st : NetworkState}
    (h : Reachable (networkStep numClients) (.initial (syncScript numClients rounds)) st) :
    BarrierInvariant numClients st := by
  refine h.invariant (I := BarrierInvariant numClients)
    (barrierInvariant_initial numClients rounds) ?_
  intro s l s' _ hinv _ hs
  exact hinv.step hs

/-- No call returns before every other client machine has entered the round. -/
theorem BarrierInvariant.returnsSafely {numClients : ℕ} {st : NetworkState}
    (hinv : BarrierInvariant numClients st) : ReturnsSafely numClients st := by
  intro a ha hpc b hb
  by_cases hba : b = a
  · rw [hba]
  · have hphase := hinv.phases a ha
    rw [hpc] at hphase
    have htaken := hphase b hb hba
    have hsent := (hinv.queues a ha b hb hba).1
    have hround : sentRounds (st.pc b) (st.round b) a ≤ st.round b := by
      unfold sentRounds
      split
      · split <;> omega
      · exact Nat.le_refl _
    omega

/-! ## Requests taken in their round -/

/-- A client has not panicked, and the requests of the synchronisation it is in come from different
machines. -/
def AcksDistinct : ClientPc → Prop
  | .waiting _ indices => indices.Nodup
  | .panicked => False
  | _ => True

/-- A client that moves to a place with distinct acknowledgements. -/
theorem acksDistinct_update {pcs : ℕ → ClientPc} {a : ℕ} {pc : ClientPc}
    (hacks : ∀ a', AcksDistinct (pcs a')) (hpc : AcksDistinct pc) :
    ∀ a', AcksDistinct (Function.update pcs a pc a') := by
  intro a'
  by_cases hne : a' = a
  · subst hne
    rw [Function.update_self]
    exact hpc
  · rw [Function.update_of_ne hne]
    exact hacks a'

/-- A request taken in its round is the first one of its sender in this call. -/
theorem BarrierInvariant.index_not_mem {numClients : ℕ} {st : NetworkState} {a i index r : ℕ}
    {indices : List ℕ} {rest : List Packet} (hinv : BarrierInvariant numClients st)
    (ha : a < numClients) (hpc : st.pc a = .waiting i indices)
    (hchannel : st.channel a = .clientSyncRequest index r :: rest) (hr : r = st.round a) :
    index ∉ indices := by
  have hround := hinv.head_round ha hpc hchannel
  apply List.count_eq_zero.mp
  omega

/-- A step that takes no request out of its round keeps the acknowledgements distinct. -/
theorem BarrierInvariant.acksDistinct_step {numClients : ℕ} {st st' : NetworkState}
    {l : NetworkLabel} (hinv : BarrierInvariant numClients st)
    (hacks : ∀ a, AcksDistinct (st.pc a)) (hguard : TakenInRound st l)
    (hs : networkStep numClients st l = some st') : ∀ a, AcksDistinct (st'.pc a) := by
  cases networkMove_of_step hs with
  | beginSync | beginGet | skipSelf | sendSyncTo | finishGet | endSync =>
    exact acksDistinct_update hacks trivial
  | beginWait => exact acksDistinct_update hacks List.nodup_nil
  | @takeSync a i indices packet rest hpc hchannel hi =>
    have ha := hinv.client_lt hpc ClientPc.noConfusion
    obtain ⟨index, r, hpacket, -⟩ := hinv.channels a packet
      (by rw [hchannel]; exact List.mem_cons_self)
    subst hpacket
    have hnodup : indices.Nodup := by
      have hold := hacks a
      rw [hpc] at hold
      exact hold
    have hnew := hinv.index_not_mem ha hpc hchannel (hguard index r rest hchannel)
    refine acksDistinct_update hacks ?_
    show (indices ++ [index]).Nodup
    exact List.nodup_append'.mpr ⟨hnodup, List.nodup_singleton index,
      List.disjoint_singleton.mpr hnew⟩
  | @failSync a i indices hpc hi hfail =>
    -- distinct acknowledgements are as many as there are other machines
    have hphase := hinv.phases a (hinv.client_lt hpc ClientPc.noConfusion)
    rw [hpc] at hphase
    have hnodup : indices.Nodup := by
      have hold := hacks a
      rw [hpc] at hold
      exact hold
    rw [hnodup.dedup] at hfail
    have hlength := hphase.2.1
    have hle := hphase.2.2.1
    omega
  | deliverSync | deliverResponse | serverReceive | answer => exact hacks

/-- No client machine panics in a run that takes every request in its round. -/
theorem noPanic_of_takenInRound {numClients : ℕ} {rounds : ℕ → ℕ} {st : NetworkState}
    (h : ReachableUnder (networkStep numClients) TakenInRound
      (.initial (syncScript numClients rounds)) st) : NoPanic numClients st := by
  have hacks : BarrierInvariant numClients st ∧ ∀ a, AcksDistinct (st.pc a) := by
    refine h.invariant (I := fun s => BarrierInvariant numClients s ∧ ∀ a, AcksDistinct (s.pc a))
      ⟨barrierInvariant_initial numClients rounds, fun _ => trivial⟩ ?_
    intro s l s' _ hinv hguard hs
    exact ⟨hinv.1.step hs, hinv.1.acksDistinct_step hinv.2 hguard hs⟩
  intro a _ hpc
  have hpanicked := hacks.2 a
  rw [hpc] at hpanicked
  exact hpanicked

/-- With two client machines a call takes one message, which is of its round. -/
theorem BarrierInvariant.takenInRound {st st' : NetworkState} {l : NetworkLabel}
    (hinv : BarrierInvariant 2 st) (hs : networkStep 2 st l = some st') : TakenInRound st l := by
  cases networkMove_of_step hs with
  | @takeSync a i indices packet rest hpc hchannel hi =>
    intro index r rest' hchannel'
    have ha := hinv.client_lt hpc ClientPc.noConfusion
    have hphase := hinv.phases a ha
    rw [hpc] at hphase
    have hnil : indices = [] := List.eq_nil_of_length_eq_zero (by have := hphase.2.1; omega)
    have hround := hinv.head_round ha hpc hchannel'
    rw [hnil, List.count_nil] at hround
    exact hround
  | @finishGet a request server packet rest hpc hchannel =>
    have ha := hinv.client_lt hpc ClientPc.noConfusion
    have hphase := hinv.phases a ha
    rw [hpc] at hphase
    exact hphase.elim
  | _ => trivial

/-- **The client barrier.** In every run no call of `sync_with_other_clients` returns before every
other client machine has entered the round. No call panics in a run that takes every request in the
round it was sent in, as every run of two client machines does. -/
theorem barrier_holds (numClients : ℕ) (rounds : ℕ → ℕ) :
    (∀ st, Reachable (networkStep numClients) (.initial (syncScript numClients rounds)) st →
      ReturnsSafely numClients st) ∧
    (∀ st, ReachableUnder (networkStep numClients) TakenInRound
        (.initial (syncScript numClients rounds)) st → NoPanic numClients st) ∧
    (numClients = 2 → ∀ st,
      Reachable (networkStep numClients) (.initial (syncScript numClients rounds)) st →
      NoPanic numClients st) := by
  refine ⟨?_, ?_, ?_⟩
  · intro st h
    exact (barrierInvariant_of_reachable h).returnsSafely
  · intro st h
    exact noPanic_of_takenInRound h
  · intro htwo st h
    subst htwo
    refine @noPanic_of_takenInRound 2 rounds st (h.strengthen ?_)
    intro s l s' hreach hs
    exact (barrierInvariant_of_reachable hreach).takenInRound hs

/-- A run of three client machines: machine 0 finishes its first round and sends its request of the
second one, which machine 1 takes in its first round while the request of machine 2 is delayed. -/
def overtakingRun : List NetworkLabel :=
  [.start 0, .sendSync 0, .sendSync 0, .sendSync 0, .sendSync 0,
    .start 1, .sendSync 1, .sendSync 1, .sendSync 1, .sendSync 1,
    .start 2, .sendSync 2, .sendSync 2, .sendSync 2, .sendSync 2,
    .deliverSync 1 0, .deliverSync 2 0, .receive 0, .receive 0, .finishSync 0,
    .start 0, .sendSync 0, .sendSync 0, .sendSync 0, .sendSync 0,
    .deliverSync 0 1, .deliverSync 0 1, .receive 1, .receive 1, .finishSync 1]

/-- With three client machines and two rounds a call can panic. -/
theorem barrier_panics : ¬ ∀ st : NetworkState,
    Reachable (networkStep 3) (.initial (syncScript 3 fun _ => 2)) st → NoPanic 3 st := by
  intro h
  have hrun : ∃ st : NetworkState,
      runLabels (networkStep 3) (.initial (syncScript 3 fun _ => 2)) overtakingRun = some st ∧
        st.pc 1 = .panicked := ⟨_, rfl, rfl⟩
  obtain ⟨st, hst, hpc⟩ := hrun
  exact h st (reachable_of_runLabels overtakingRun hst) 1 (by decide) hpc

end TwigKV.ClientSync
