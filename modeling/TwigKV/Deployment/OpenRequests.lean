import TwigKV.Server.EndpointSafety
import TwigKV.Server.ResponseCount

/-! # The open requests of a server thread

A request is open once its thread has received it and until the thread has sent a response to it. A
step of a thread opens the request that it receives and closes those that it responds to: they were
open, and each of them gets one response (`ThreadOk.open_serverMove`, `ThreadOk.closes`). This is
the server that clients see. -/

namespace TwigKV.Deployment

open Server

variable {config : ServerConfig} {st st₁ : ServerState} {label : ServerLabel}
  {effects : List ServerEffect}

/-! ## What a step receives and sends -/

/-- The packet that an effect sends. -/
def packetOf : ServerEffect → Option ServerPacket
  | .send packet => some packet
  | _ => none

/-- The number of the request that a packet responds to. -/
def responseId : ServerPacket → Option ℕ
  | .getResponse request _ => some request.id
  | .putResponse _ | .singletonPutRequest _ _ _ => none

/-- The request that a step receives. -/
def receivedBy (st : ServerState) : ServerLabel → List GetRequest
  | .receiveGet remoteIndex remotePort key _ =>
      [⟨st.received.length, remoteIndex, remotePort, cStr key⟩]
  | _ => []

/-- Effects send their packets. -/
theorem sent_applyEffects (st : ServerState) (effects : List ServerEffect) :
    (applyEffects st effects).sent = st.sent ++ effects.filterMap packetOf := by
  induction effects generalizing st with
  | nil => exact (List.append_nil _).symm
  | cons effect effects ih =>
    show (applyEffects (applyEffect st effect) effects).sent = _
    rw [ih, List.filterMap_cons]
    cases effect <;> simp [applyEffect, packetOf]

/-- A step adds the request that it receives. -/
theorem received_serverMove (h : serverMove config st label = some (st₁, effects)) :
    st₁.received = st.received ++ receivedBy st label := by
  cases serverMove_cases h with
  | receiveGet => rfl
  | _ => exact (List.append_nil _).symm

/-- The responses to a request among the packets sent. -/
theorem responsesTo_eq_count (st : ServerState) (id : ℕ) :
    responsesTo st id = (st.sent.filterMap responseId).count id := by
  unfold responsesTo
  induction st.sent with
  | nil => rfl
  | cons packet sent ih =>
    rw [weight_cons, ih, List.filterMap_cons]
    cases packet with
    | getResponse request value =>
      rw [responseId, packetWeight, ofRequest, List.count_cons, Nat.add_comm]
      simp only [beq_iff_eq]
    | putResponse | singletonPutRequest => exact Nat.zero_add _

/-! ## Threads -/

/-- What holds of a server thread in every state of every run. -/
structure ThreadOk (config : ServerConfig) (st : ServerState) : Prop where
  /-- The responses sent and under way are those owed. -/
  balanced : Balanced config st
  /-- Requests are numbered in order. -/
  numbered : Numbered st
  /-- What is under way belongs to requests that have been received. -/
  known : RequestsUnderWay config (· ∈ st.received) st

/-- A thread that has received nothing. -/
theorem threadOk_initial (config : ServerConfig) : ThreadOk config .initial where
  balanced := (balanced_of_reachable .refl).1
  numbered := (balanced_of_reachable (@ReachableUnder.refl _ _ (serverStep config) _ _)).2
  known := requestsUnderWay_initial

/-- Where no read buffers are sent, a request that has been received gets at most one response, and
no other number gets any. -/
theorem ThreadOk.responsesTo_le (h : ThreadOk config st) (hbuffer : config.sendsReadBuffer = false)
    (id : ℕ) : responsesTo st id ≤ if id < st.received.length then 1 else 0 := by
  have hbalanced := h.balanced id
  rw [owed, hbuffer, if_neg Bool.false_ne_true, weight_ofRequest, h.numbered.received,
    List.nodup_range.count] at hbalanced
  simp only [List.mem_range] at hbalanced
  omega

/-- A step leaves requests under way and sends responses only for requests that have been
received. -/
theorem known_serverMove (h : RequestsUnderWay config (· ∈ st.received) st)
    (hmove : serverMove config st label = some (st₁, effects)) :
    RequestsUnderWay config (· ∈ st₁.received) (applyEffects st₁ effects) ∧
      ∀ request value, ServerPacket.getResponse request value ∈ effects.filterMap packetOf →
        request ∈ st₁.received := by
  have hreceived := received_serverMove hmove
  by_cases hlabel : label.SendsGetResponses
  · have hold : RequestsUnderWay config (· ∈ st₁.received) st := by
      refine h.mono fun request hmem => ?_
      rw [hreceived]
      exact List.mem_append_left _ hmem
    obtain ⟨hunder, hconcerns⟩ := effectConcerns_serverMove hold (by
      intro remoteIndex remotePort key answers heq
      rw [hreceived, heq]
      exact List.mem_append_right _ List.mem_cons_self) hlabel hmove
    refine ⟨hunder.applyEffects hconcerns, ?_⟩
    intro request value hmem
    obtain ⟨effect, heffect, hpacket⟩ := List.mem_filterMap.mp hmem
    have hconcern := hconcerns effect heffect
    cases effect with
    | send packet => cases hpacket; exact hconcern
    | _ => cases hpacket
  · -- a put response or a singleton put request is sent, and nothing else happens to the server
    cases serverMove_cases hmove with
    | receivePut =>
      refine ⟨{ h with }, ?_⟩
      intro request value hmem
      simp [packetOf] at hmem
    | sendSingletonPutRequest hqueue =>
      refine ⟨{ h with
        singletonPutRequestQueue := (forall_mem_dequeueAt hqueue h.singletonPutRequestQueue).2 },
        ?_⟩
      intro request value hmem
      simp [packetOf] at hmem
    | _ => exact absurd trivial hlabel

/-- **A step of a thread** keeps the invariant. -/
theorem ThreadOk.step (h : ThreadOk config st)
    (hmove : serverMove config st label = some (st₁, effects)) :
    ThreadOk config (applyEffects st₁ effects) := by
  have hstep : serverStep config st label = some (applyEffects st₁ effects) := by
    rw [serverStep, hmove]
    rfl
  refine ⟨h.balanced.step hstep, h.numbered.step hstep, ?_⟩
  rw [(applyEffects_history st₁ effects).1]
  exact (known_serverMove h.known hmove).1

/-! ## Open requests -/

/-- The request with this number is open: received, and not responded to. -/
def Open (st : ServerState) (id : ℕ) : Prop := id < st.received.length ∧ responsesTo st id = 0

/-- The numbers of the requests that effects respond to. -/
def closedBy (effects : List ServerEffect) : List ℕ :=
  (effects.filterMap packetOf).filterMap responseId

/-- The responses after a step are those before it and those that it sends. -/
theorem responsesTo_serverMove (hmove : serverMove config st label = some (st₁, effects)) (id : ℕ) :
    responsesTo (applyEffects st₁ effects) id
      = responsesTo st id + (closedBy effects).count id := by
  rw [responsesTo_eq_count, responsesTo_eq_count, sent_applyEffects, sent_serverMove hmove,
    List.filterMap_append, List.count_append]
  rfl

/-- **What a step responds to.** No request gets two responses, and each of them was open or has
just been received. -/
theorem ThreadOk.closes (h : ThreadOk config st) (hbuffer : config.sendsReadBuffer = false)
    (hmove : serverMove config st label = some (st₁, effects)) :
    (closedBy effects).Nodup ∧ ∀ id ∈ closedBy effects,
      id < (applyEffects st₁ effects).received.length ∧ responsesTo st id = 0 := by
  have hle := (h.step hmove).responsesTo_le hbuffer
  have hcount := responsesTo_serverMove hmove
  refine ⟨List.nodup_iff_count_le_one.mpr ?_, ?_⟩
  · intro id
    have hone := hle id
    rw [hcount id] at hone
    split at hone <;> omega
  · intro id hid
    have hpos := List.count_pos_iff.mpr hid
    have hone := hle id
    rw [hcount id] at hone
    split at hone
    · next hlt => exact ⟨hlt, by omega⟩
    · omega

/-- **The open requests after a step**: those before it and the one received, without those that it
responds to. -/
theorem ThreadOk.open_serverMove (h : ThreadOk config st) (hbuffer : config.sendsReadBuffer = false)
    (hmove : serverMove config st label = some (st₁, effects)) (id : ℕ) :
    Open (applyEffects st₁ effects) id ↔
      (Open st id ∨ id ∈ (receivedBy st label).map GetRequest.id) ∧ id ∉ closedBy effects := by
  have hcount := responsesTo_serverMove hmove id
  have hreceived := received_serverMove hmove
  have hlength : (applyEffects st₁ effects).received.length
      = st.received.length + (receivedBy st label).length := by
    rw [(applyEffects_history st₁ effects).1, hreceived, List.length_append]
  have hle := h.responsesTo_le hbuffer id
  have hclosed : id ∉ closedBy effects ↔ (closedBy effects).count id = 0 :=
    List.count_eq_zero.symm
  have hreceivedBy : id ∈ (receivedBy st label).map GetRequest.id ↔
      id = st.received.length ∧ (receivedBy st label).length = 1 := by
    unfold receivedBy
    split <;> simp
  have hshort : (receivedBy st label).length ≤ 1 := by
    unfold receivedBy
    split <;> simp
  unfold Open
  rw [hcount, hlength, hclosed, hreceivedBy]
  split at hle <;> omega

end TwigKV.Deployment
