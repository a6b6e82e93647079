import TwigKV.Server.Machine
import TwigKV.ClientSync.ClientNetwork

/-! # What arrives of a message

The senders set the texts of a packet from strings with a length, and capnp returns what was set.
The handlers, however, take a text through `cStr()`, as a C string that ends at its first NUL, and
those of get and delete requests read its number with `std::stoi` before anything else.

So a handler passes on what the sender was given exactly when the texts have no NUL and, for those
two requests, the key has a number (`roundTrips_iff`). -/

namespace TwigKV.Server

/-! ## Packets -/

/-- `Packet::Data`, for the packets that carry texts. A sender sets every field to its argument, so
this is also what a sender was given. -/
inductive PacketData where
  /-- `PutRequest`, sent by `put`. -/
  | putRequest (key value : String)
  /-- `GetRequest`, sent by `get`. -/
  | getRequest (key : String)
  /-- `GetResponse`, sent by `get_response`; its response type is not read by the client. -/
  | getResponse (value : String)
  /-- `SingletonPutRequest`, sent by `singleton_put_request`. -/
  | singletonPutRequest (key value : String) (singleton : Bool) (forwardCount : UInt64)
  /-- `DeleteRequest`, sent by `delete_request`. -/
  | deleteRequest (key : String)
deriving DecidableEq, Repr

/-- The capnp library: packets to a frame and back. -/
structure Capnp where
  /-- `messageToFlatArray`. -/
  messageToFlatArray : List PacketData → List UInt8
  /-- `FlatArrayMessageReader` and `getPackets`, `none` for an exception. -/
  getPackets : List UInt8 → Option (List PacketData)

/-- The size of the buffer that `receive` hands to `machnet_recv`. -/
def receiveBufferSize : ℕ := 4096

/-- The frame of a packet fits the buffer. -/
def Capnp.Fits (capnp : Capnp) (data : PacketData) : Prop :=
  (capnp.messageToFlatArray [data]).length ≤ receiveBufferSize

instance decidableFits (capnp : Capnp) (data : PacketData) : Decidable (capnp.Fits data) :=
  Nat.decLe _ _

/-- A packet comes back with the fields that were set. -/
def Capnp.Returns (capnp : Capnp) (data : PacketData) : Prop :=
  capnp.getPackets (capnp.messageToFlatArray [data]) = some [data]

instance decidableReturns (capnp : Capnp) (data : PacketData) : Decidable (capnp.Returns data) :=
  inferInstanceAs (Decidable (_ = _))

/-! ## Handlers -/

/-- The handler of the server loop: what it passes on of a packet, as the packet with the texts it
has read. `none` is an exception of `std::stoi`. -/
def serverHandler : PacketData → Option (List PacketData)
  | .putRequest key value => some [.putRequest (cStr key) (cStr value)]
  | .getRequest key => (stoi (cStr key)).map fun _ => [.getRequest (cStr key)]
  | .singletonPutRequest key value singleton forwardCount =>
      some [.singletonPutRequest (cStr key) (cStr value) singleton forwardCount]
  | .deleteRequest key => (stoi (cStr key)).map fun _ => [.deleteRequest (cStr key)]
  | .getResponse _ => some []

/-- The handler of the client's `get`: the value it returns. -/
def clientHandler : PacketData → Option (List PacketData)
  | .getResponse value => some [.getResponse (cStr value)]
  -- "Unexpected response"
  | .putRequest _ _ | .getRequest _ | .singletonPutRequest _ _ _ _ | .deleteRequest _ => some []

/-- The handler at the other end. -/
def PacketData.handler : PacketData → PacketData → Option (List PacketData)
  | .getResponse _ => clientHandler
  | .putRequest _ _ | .getRequest _ | .singletonPutRequest _ _ _ _ | .deleteRequest _ =>
      serverHandler

/-- `receive`: every packet of a frame is handled. A frame that is longer than the buffer is not
received. -/
def receive (capnp : Capnp) (handler : PacketData → Option (List PacketData))
    (frame : List UInt8) : Option (List PacketData) :=
  if frame.length ≤ receiveBufferSize then
    (capnp.getPackets frame).bind fun packets => (packets.mapM handler).map List.flatten
  else none

/-- **The round trip**: the handler at the other end passes on what the sender was given. -/
def RoundTrips (capnp : Capnp) (data : PacketData) : Prop :=
  receive capnp data.handler (capnp.messageToFlatArray [data]) = some [data]

instance decidableRoundTrips (capnp : Capnp) (data : PacketData) :
    Decidable (RoundTrips capnp data) :=
  inferInstanceAs (Decidable (_ = _))

/-- A key or value that its handler reads whole: without a NUL, and a number where the handler needs
one. -/
def PacketData.ReadWhole : PacketData → Prop
  | .putRequest key value => NulFree key ∧ NulFree value
  | .getRequest key => NulFree key ∧ (stoi key).isSome
  | .getResponse value => NulFree value
  | .singletonPutRequest key value _ _ => NulFree key ∧ NulFree value
  | .deleteRequest key => NulFree key ∧ (stoi key).isSome

instance decidableReadWhole : (data : PacketData) → Decidable data.ReadWhole
  | .putRequest key value => inferInstanceAs (Decidable (NulFree key ∧ NulFree value))
  | .getRequest key => inferInstanceAs (Decidable (NulFree key ∧ _))
  | .getResponse value => inferInstanceAs (Decidable (NulFree value))
  | .singletonPutRequest key value _ _ => inferInstanceAs (Decidable (NulFree key ∧ NulFree value))
  | .deleteRequest key => inferInstanceAs (Decidable (NulFree key ∧ _))

/-! ## The handlers of the other models -/

/-- The label under which a server receives a packet. -/
def receiveLabel (remoteIndex remotePort : ℕ) (answers : GetAnswers) :
    PacketData → Option ServerLabel
  | .putRequest key value => some (.receivePut remoteIndex key value)
  | .getRequest key => some (.receiveGet remoteIndex remotePort key answers)
  | .getResponse _ => none
  | .singletonPutRequest key value singleton forwardCount =>
      some (.receiveSingletonPut key value singleton forwardCount.toNat)
  | .deleteRequest key => some (.receiveDelete key)

/-- What a server has been handed, in its state after a step and the effects of the step. -/
def HandedOn (st : ServerState) (effects : List ServerEffect) : PacketData → Prop
  | .putRequest key value => .blockCachePut key value ∈ effects
  | .getRequest key => key ∈ st.received.map GetRequest.key
  | .getResponse _ => False
  | .singletonPutRequest key value singleton forwardCount =>
      .putSingleton key value singleton forwardCount.toNat ∈ effects
  | .deleteRequest key => .deleteKey key ∈ effects

/-- A step of the server that receives a packet hands on what the handler here passes on. -/
theorem handedOn_of_serverMove {config : ServerConfig} {st st' : ServerState}
    {effects : List ServerEffect} {remoteIndex remotePort : ℕ} {answers : GetAnswers}
    {data : PacketData} {label : ServerLabel}
    (hlabel : receiveLabel remoteIndex remotePort answers data = some label)
    (hmove : serverMove config st label = some (st', effects)) :
    ∃ passed, serverHandler data = some [passed] ∧ HandedOn st' effects passed := by
  cases data with
  | putRequest key value =>
      cases hlabel
      rw [serverMove, Option.some.injEq] at hmove
      cases hmove
      refine ⟨.putRequest (cStr key) (cStr value), rfl, ?_⟩
      rw [HandedOn]
      exact List.mem_cons_self
  | getRequest key =>
      cases hlabel
      rw [serverMove, Option.map_eq_some_iff] at hmove
      obtain ⟨handled, hget, heq⟩ := hmove
      cases heq
      -- the get handler starts with the number of the key
      rw [getHandler, Option.bind_eq_bind, Option.bind_eq_some_iff] at hget
      obtain ⟨value, hvalue, -⟩ := hget
      refine ⟨_, by rw [serverHandler, hvalue, Option.map_some], ?_⟩
      simp [HandedOn]
  | getResponse value => cases hlabel
  | singletonPutRequest key value singleton forwardCount =>
      cases hlabel
      rw [serverMove, Option.some.injEq] at hmove
      cases hmove
      refine ⟨.singletonPutRequest (cStr key) (cStr value) singleton forwardCount, rfl, ?_⟩
      rw [HandedOn]
      exact List.mem_cons_self
  | deleteRequest key =>
      cases hlabel
      rw [serverMove, Option.map_eq_some_iff] at hmove
      obtain ⟨value, hvalue, heq⟩ := hmove
      cases heq
      exact ⟨_, by rw [serverHandler, hvalue, Option.map_some], List.mem_cons_self⟩

/-- The value that `get` returns for a response is what the handler here passes on. -/
theorem clientHandler_getResponse (response : ℕ) (value : String) :
    clientHandler (.getResponse value)
      = some [.getResponse (ClientSync.getValue (.getResponse response value))] := rfl

/-! ## The result -/

/-- A frame that fits is handled packet by packet. -/
theorem receive_messageToFlatArray {capnp : Capnp} {data : PacketData} (hfit : capnp.Fits data)
    (hreturns : capnp.Returns data) (handler : PacketData → Option (List PacketData)) :
    receive capnp handler (capnp.messageToFlatArray [data]) = handler data := by
  have hlength : (capnp.messageToFlatArray [data]).length ≤ receiveBufferSize := hfit
  rw [receive, if_pos hlength, hreturns, Option.bind_some, List.mapM_cons, List.mapM_nil]
  cases handler data with
  | none => rfl
  | some passed => simp

/-- A key that must have a number is passed on whole exactly when it has no NUL and has one. -/
theorem map_stoi_cStr_iff {key : String} {packet : String → PacketData}
    (hpacket : Function.Injective packet) :
    ((stoi (cStr key)).map fun _ => [packet (cStr key)]) = some [packet key] ↔
      NulFree key ∧ (stoi key).isSome := by
  rw [Option.map_eq_some_iff, ← cStr_eq_self_iff]
  constructor
  · rintro ⟨value, hvalue, heq⟩
    have hkey := hpacket (List.singleton_inj.mp heq)
    rw [hkey] at hvalue
    exact ⟨hkey, by rw [hvalue]; rfl⟩
  · rintro ⟨hkey, hsome⟩
    obtain ⟨value, hvalue⟩ := Option.isSome_iff_exists.mp hsome
    exact ⟨value, by rw [hkey, hvalue], by rw [hkey]⟩

/-- What the handler at the other end does with a packet. -/
theorem handler_eq_iff (data : PacketData) : data.handler data = some [data] ↔ data.ReadWhole := by
  cases data with
  | putRequest key value =>
      rw [PacketData.ReadWhole, ← cStr_eq_self_iff, ← cStr_eq_self_iff]
      simp [PacketData.handler, serverHandler]
  | getRequest key =>
      rw [PacketData.handler, serverHandler, PacketData.ReadWhole]
      exact map_stoi_cStr_iff fun key key' h => PacketData.getRequest.inj h
  | getResponse value =>
      rw [PacketData.ReadWhole, ← cStr_eq_self_iff]
      simp [PacketData.handler, clientHandler]
  | singletonPutRequest key value singleton forwardCount =>
      rw [PacketData.ReadWhole, ← cStr_eq_self_iff, ← cStr_eq_self_iff]
      simp [PacketData.handler, serverHandler]
  | deleteRequest key =>
      rw [PacketData.handler, serverHandler, PacketData.ReadWhole]
      exact map_stoi_cStr_iff fun key key' h => PacketData.deleteRequest.inj h

/-- **When a message arrives whole.** For every packet of the five kinds, with any texts, whose
frame fits the buffer and whose fields capnp returns, the handler passes on what the sender was
given exactly when the texts have no NUL and the key of a get or delete request has a number. -/
theorem roundTrips_iff {capnp : Capnp} {data : PacketData} (hfit : capnp.Fits data)
    (hreturns : capnp.Returns data) : RoundTrips capnp data ↔ data.ReadWhole := by
  rw [RoundTrips, receive_messageToFlatArray hfit hreturns, handler_eq_iff]

/-- The frame of a put request for key `1` with value `A`: the segment table, the pointers and the
two texts, each in a word. -/
def putFrame : List UInt8 :=
  [0, 0, 0, 0, 9, 0, 0, 0] ++
  [0, 0, 0, 0, 0, 0, 1, 0] ++ [1, 0, 0, 0, 23, 0, 0, 0] ++
  [4, 0, 0, 0, 1, 0, 1, 0] ++ [0, 0, 0, 0, 0, 0, 0, 0] ++ [0, 0, 0, 0, 0, 0, 2, 0] ++
  [5, 0, 0, 0, 18, 0, 0, 0] ++ [5, 0, 0, 0, 18, 0, 0, 0] ++
  [49, 0, 0, 0, 0, 0, 0, 0] ++ [65, 0, 0, 0, 0, 0, 0, 0]

/-- capnp on this frame. -/
def putCapnp : Capnp := ⟨fun _ => putFrame, fun frame =>
  if frame = putFrame then some [.putRequest "1" "A"] else none⟩

/-- This put request arrives whole. -/
theorem roundTrips_iff_put : RoundTrips putCapnp (.putRequest "1" "A") :=
  (roundTrips_iff (by decide) (by decide)).mpr (by decide)

/-- The frame of a put request for key `1` whose value is `A`, a NUL and `B`. -/
def nulFrame : List UInt8 :=
  [0, 0, 0, 0, 9, 0, 0, 0] ++
  [0, 0, 0, 0, 0, 0, 1, 0] ++ [1, 0, 0, 0, 23, 0, 0, 0] ++
  [4, 0, 0, 0, 1, 0, 1, 0] ++ [0, 0, 0, 0, 0, 0, 0, 0] ++ [0, 0, 0, 0, 0, 0, 2, 0] ++
  [5, 0, 0, 0, 18, 0, 0, 0] ++ [5, 0, 0, 0, 34, 0, 0, 0] ++
  [49, 0, 0, 0, 0, 0, 0, 0] ++ [65, 0, 66, 0, 0, 0, 0, 0]

/-- The value `A`, NUL, `B`. -/
def nulValue : String := String.ofList ['A', nul, 'B']

/-- capnp on this frame. -/
def nulCapnp : Capnp := ⟨fun _ => nulFrame, fun frame =>
  if frame = nulFrame then some [.putRequest "1" nulValue] else none⟩

/-- Of a value with a NUL the put handler passes on what stands before it. -/
theorem value_cut_at_nul :
    nulCapnp.Fits (.putRequest "1" nulValue) ∧ nulCapnp.Returns (.putRequest "1" nulValue) ∧
      receive nulCapnp serverHandler (nulCapnp.messageToFlatArray [.putRequest "1" nulValue])
        = some [.putRequest "1" "A"] ∧
      ¬ RoundTrips nulCapnp (.putRequest "1" nulValue) := by
  refine ⟨?_, ?_, ?_, ?_⟩
  · decide
  · decide
  · decide
  · decide

end TwigKV.Server
