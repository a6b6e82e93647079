import TwigKV.Foundations.CText
import TwigKV.Foundations.DoubleUpdate
import TwigKV.Foundations.LabelledRun
import TwigKV.Foundations.QueueCensus

/-! # Clients, servers and the channel (`connection.cpp`, `execute_operations`)

A client has one channel on which the messages of all its connections arrive: the servers' replies
and the synchronisation requests of the other client machines. `poll_receive` takes the next
message, whatever it is. The first client of every machine runs `sync_with_other_clients` before and
after its operations; every operation is a `get`, which takes one message as its reply.

Clients `0..numClients - 1` are the first clients of the client machines; the further clients of a
machine, numbered from there on, only issue gets. A connection is a FIFO queue of its own, and a
message it delivers is appended to the receiver's channel. Servers answer the requests they have
received in any order, each one once, with any value.

Requests are numbered and synchronisation requests carry their sender's round as ghosts: the
messages of the program carry neither. Two waits of the program are left out, which only adds
interleavings: the spin loops that start and end the clients of a machine together. -/

namespace TwigKV.ClientSync

/-- What a client does next. -/
inductive ClientAction where
  /-- `sync_with_other_clients`. -/
  | sync
  /-- `get` of a key from a server. -/
  | get (key : String) (server : ℕ)
deriving DecidableEq, Repr

/-- A message in a client's channel. -/
inductive Packet where
  /-- `GetResponse`, with the number of the request it answers. -/
  | getResponse (request : ℕ) (value : String)
  /-- `ClientSyncRequest`, with its sender's round. -/
  | clientSyncRequest (index round : ℕ)
deriving DecidableEq, Repr

/-- Where a client stands. -/
inductive ClientPc where
  /-- Between two actions. -/
  | ready
  /-- In `sync_with_other_clients`, about to send to machine `i`. -/
  | sending (i : ℕ)
  /-- In `sync_with_other_clients`, with `i` messages taken; `indices` are those of the requests
  among them, the keys of `request_acks`. -/
  | waiting (i : ℕ) (indices : List ℕ)
  /-- In `get`, waiting for the reply to a request sent to a server. -/
  | getting (request server : ℕ)
  /-- Stopped by the "Client sync failed" panic. -/
  | panicked
deriving DecidableEq, Repr

/-- A `get` that has returned. -/
structure FinishedGet where
  /-- The client. -/
  client : ℕ
  /-- The request. -/
  request : ℕ
  /-- The message taken. -/
  taken : Packet
  /-- The value returned. -/
  returned : String
deriving DecidableEq, Repr

/-- The clients, the servers and what is under way between them. -/
structure NetworkState where
  /-- Where every client stands. -/
  pc : ℕ → ClientPc
  /-- What every client has left to do. -/
  script : ℕ → List ClientAction
  /-- The number of synchronisation rounds every client has entered. -/
  round : ℕ → ℕ
  /-- The messages in every client's channel. -/
  channel : ℕ → List Packet
  /-- Connections from clients to servers: numbered requests with their keys. -/
  requests : ℕ → ℕ → List (ℕ × String)
  /-- Connections from servers to clients: answers with the number of their request. -/
  responses : ℕ → ℕ → List (ℕ × String)
  /-- Connections between first clients: the rounds of the synchronisation requests. -/
  syncs : ℕ → ℕ → List ℕ
  /-- The requests every server has received and not answered. -/
  unanswered : ℕ → List (ℕ × ℕ × String)
  /-- Ghost: the number of the next request. -/
  nextRequest : ℕ
  /-- Ghost: the answers given. -/
  answers : List (ℕ × String)
  /-- Ghost: the gets that have returned. -/
  finished : List FinishedGet
  /-- Ghost: the synchronisation requests delivered to every client. -/
  syncsDelivered : ℕ → ℕ
  /-- Ghost: `syncsTaken a b` requests of `b` have been taken by client `a`. -/
  syncsTaken : ℕ → ℕ → ℕ

/-- Before any client has started. -/
def NetworkState.initial (script : ℕ → List ClientAction) : NetworkState where
  pc := fun _ => .ready
  script := script
  round := fun _ => 0
  channel := fun _ => []
  requests := fun _ _ => []
  responses := fun _ _ => []
  syncs := fun _ _ => []
  unanswered := fun _ => []
  nextRequest := 0
  answers := []
  finished := []
  syncsDelivered := fun _ => 0
  syncsTaken := fun _ _ => 0

/-- Who moves. -/
inductive NetworkLabel where
  /-- A client starts its next action. -/
  | start (a : ℕ)
  /-- A client takes a step of the loop that sends its synchronisation requests. -/
  | sendSync (a : ℕ)
  /-- A client's `poll_receive` takes the next message of its channel. -/
  | receive (a : ℕ)
  /-- A client checks the number of acknowledgements at the end of a synchronisation. -/
  | finishSync (a : ℕ)
  /-- The connection from `b` to `a` delivers. -/
  | deliverSync (b a : ℕ)
  /-- The connection from a server to a client delivers. -/
  | deliverResponse (s a : ℕ)
  /-- A server receives the next request of a client. -/
  | serverReceive (s a : ℕ)
  /-- A server answers one of its requests. -/
  | answer (s i : ℕ) (value : String)
deriving DecidableEq, Repr

/-- A client's program counter is set. -/
def NetworkState.goto (st : NetworkState) (a : ℕ) (pc : ClientPc) : NetworkState :=
  { st with pc := Function.update st.pc a pc }

/-- `sync_with_other_clients` begins. -/
def beginSync (st : NetworkState) (a : ℕ) (rest : List ClientAction) : NetworkState :=
  { st with
    pc := Function.update st.pc a (.sending 0)
    script := Function.update st.script a rest
    round := Function.update st.round a (st.round a + 1) }

/-- `get` sends its request. -/
def beginGet (st : NetworkState) (a : ℕ) (key : String) (server : ℕ)
    (rest : List ClientAction) : NetworkState :=
  { st with
    pc := Function.update st.pc a (.getting st.nextRequest server)
    script := Function.update st.script a rest
    requests := update₂ st.requests a server (st.requests a server ++ [(st.nextRequest, key)])
    nextRequest := st.nextRequest + 1 }

/-- A synchronisation request is sent to machine `i`. -/
def sendSyncTo (st : NetworkState) (a i : ℕ) : NetworkState :=
  { st with
    pc := Function.update st.pc a (.sending (i + 1))
    syncs := update₂ st.syncs a i (st.syncs a i ++ [st.round a]) }

/-- The value `get` returns for the message it takes: the response's text, or nothing when the
message is not a response ("Unexpected response"). -/
def getValue : Packet → String
  | .getResponse _ value => cStr value
  | .clientSyncRequest _ _ => ""

/-- The synchronisation requests of every sender taken, after one more message. -/
def countTaken (taken : ℕ → ℕ) : Packet → ℕ → ℕ
  | .getResponse _ _ => taken
  | .clientSyncRequest index _ => Function.update taken index (taken index + 1)

/-- `get` takes a message and returns. -/
def finishGet (st : NetworkState) (a request : ℕ) (packet : Packet) (rest : List Packet) :
    NetworkState :=
  { st with
    pc := Function.update st.pc a .ready
    channel := Function.update st.channel a rest
    finished := st.finished ++ [⟨a, request, packet, getValue packet⟩]
    syncsTaken := Function.update st.syncsTaken a (countTaken (st.syncsTaken a) packet) }

/-- The handler of `sync_with_other_clients`: the index of a synchronisation request becomes a key
of `request_acks`, other messages are dropped. -/
def recordAck (indices : List ℕ) : Packet → List ℕ
  | .getResponse _ _ => indices
  | .clientSyncRequest index _ => indices ++ [index]

/-- `sync_with_other_clients` takes a message. -/
def takeSync (st : NetworkState) (a i : ℕ) (indices : List ℕ) (packet : Packet)
    (rest : List Packet) : NetworkState :=
  { st with
    pc := Function.update st.pc a (.waiting (i + 1) (recordAck indices packet))
    channel := Function.update st.channel a rest
    syncsTaken := Function.update st.syncsTaken a (countTaken (st.syncsTaken a) packet) }

/-- A message arrives in a client's channel. -/
def deliver (st : NetworkState) (a : ℕ) (packet : Packet) : NetworkState :=
  { st with channel := Function.update st.channel a (st.channel a ++ [packet]) }

/-- The connection from `b` to `a` delivers the request of round `r`. -/
def deliverSyncRequest (st : NetworkState) (b a r : ℕ) (rest : List ℕ) : NetworkState :=
  { deliver st a (.clientSyncRequest b r) with
    syncs := update₂ st.syncs b a rest
    syncsDelivered := Function.update st.syncsDelivered a (st.syncsDelivered a + 1) }

/-- The connection from server `s` to client `a` delivers a response. -/
def deliverGetResponse (st : NetworkState) (s a request : ℕ) (value : String)
    (rest : List (ℕ × String)) : NetworkState :=
  { deliver st a (.getResponse request value) with
    responses := update₂ st.responses s a rest }

/-- Server `s` receives a request of client `a`. -/
def receiveRequest (st : NetworkState) (s a request : ℕ) (key : String)
    (rest : List (ℕ × String)) : NetworkState :=
  { st with
    requests := update₂ st.requests a s rest
    unanswered := Function.update st.unanswered s (st.unanswered s ++ [(a, request, key)]) }

/-- Server `s` answers a request of client `a`; `rest` are those it has still to answer. -/
def answerRequest (st : NetworkState) (s a request : ℕ) (value : String)
    (rest : List (ℕ × ℕ × String)) : NetworkState :=
  { st with
    unanswered := Function.update st.unanswered s rest
    responses := update₂ st.responses s a (st.responses s a ++ [(request, value)])
    answers := st.answers ++ [(request, value)] }

/-- One step: `none` where the label is not enabled. -/
def networkStep (numClients : ℕ) (st : NetworkState) : NetworkLabel → Option NetworkState
  | .start a =>
      match st.pc a, st.script a with
      | .ready, .sync :: rest => some (beginSync st a rest)
      | .ready, .get key server :: rest => some (beginGet st a key server rest)
      | _, _ => none
  | .sendSync a =>
      match st.pc a with
      | .sending i =>
          if i < numClients then
            if i = a then some (st.goto a (.sending (i + 1))) else some (sendSyncTo st a i)
          else some (st.goto a (.waiting 0 []))
      | _ => none
  | .receive a =>
      match st.pc a, st.channel a with
      | .getting request _, packet :: rest => some (finishGet st a request packet rest)
      | .waiting i indices, packet :: rest =>
          if i < numClients - 1 then some (takeSync st a i indices packet rest) else none
      | _, _ => none
  | .finishSync a =>
      match st.pc a with
      | .waiting i indices =>
          if i < numClients - 1 then none
          -- `request_acks` has one entry for each index, however often it came
          else if indices.dedup.length ≠ numClients - 1 then some (st.goto a .panicked)
          else some (st.goto a .ready)
      | _ => none
  | .deliverSync b a =>
      match st.syncs b a with
      | r :: rest => some (deliverSyncRequest st b a r rest)
      | [] => none
  | .deliverResponse s a =>
      match st.responses s a with
      | (request, value) :: rest => some (deliverGetResponse st s a request value rest)
      | [] => none
  | .serverReceive s a =>
      match st.requests a s with
      | (request, key) :: rest => some (receiveRequest st s a request key rest)
      | [] => none
  | .answer s i value =>
      match dequeueAt (st.unanswered s) i with
      | some ((a, request, _), rest) => some (answerRequest st s a request value rest)
      | none => none

/-! ## The moves of a step -/

/-- What a step can do: one constructor for every branch of `networkStep`. -/
inductive NetworkMove (numClients : ℕ) (st : NetworkState) : NetworkLabel → NetworkState → Prop
  /-- A synchronisation starts. -/
  | beginSync {a : ℕ} {rest : List ClientAction} (hpc : st.pc a = .ready)
      (hscript : st.script a = .sync :: rest) :
      NetworkMove numClients st (.start a) (beginSync st a rest)
  /-- A get starts. -/
  | beginGet {a server : ℕ} {key : String} {rest : List ClientAction} (hpc : st.pc a = .ready)
      (hscript : st.script a = .get key server :: rest) :
      NetworkMove numClients st (.start a) (beginGet st a key server rest)
  /-- A machine does not send to itself. -/
  | skipSelf {a : ℕ} (hpc : st.pc a = .sending a) (ha : a < numClients) :
      NetworkMove numClients st (.sendSync a) (st.goto a (.sending (a + 1)))
  /-- A synchronisation request is sent. -/
  | sendSyncTo {a i : ℕ} (hpc : st.pc a = .sending i) (hi : i < numClients) (hia : i ≠ a) :
      NetworkMove numClients st (.sendSync a) (sendSyncTo st a i)
  /-- All requests are sent. -/
  | beginWait {a i : ℕ} (hpc : st.pc a = .sending i) (hi : numClients ≤ i) :
      NetworkMove numClients st (.sendSync a) (st.goto a (.waiting 0 []))
  /-- A get takes a message and returns. -/
  | finishGet {a request server : ℕ} {packet : Packet} {rest : List Packet}
      (hpc : st.pc a = .getting request server) (hchannel : st.channel a = packet :: rest) :
      NetworkMove numClients st (.receive a) (finishGet st a request packet rest)
  /-- A synchronisation takes a message. -/
  | takeSync {a i : ℕ} {indices : List ℕ} {packet : Packet} {rest : List Packet}
      (hpc : st.pc a = .waiting i indices) (hchannel : st.channel a = packet :: rest)
      (hi : i < numClients - 1) :
      NetworkMove numClients st (.receive a) (takeSync st a i indices packet rest)
  /-- A synchronisation fails. -/
  | failSync {a i : ℕ} {indices : List ℕ} (hpc : st.pc a = .waiting i indices)
      (hi : numClients - 1 ≤ i) (hacks : indices.dedup.length ≠ numClients - 1) :
      NetworkMove numClients st (.finishSync a) (st.goto a .panicked)
  /-- A synchronisation returns. -/
  | endSync {a i : ℕ} {indices : List ℕ} (hpc : st.pc a = .waiting i indices)
      (hi : numClients - 1 ≤ i) (hacks : indices.dedup.length = numClients - 1) :
      NetworkMove numClients st (.finishSync a) (st.goto a .ready)
  /-- A synchronisation request arrives. -/
  | deliverSync {b a r : ℕ} {rest : List ℕ} (hsyncs : st.syncs b a = r :: rest) :
      NetworkMove numClients st (.deliverSync b a) (deliverSyncRequest st b a r rest)
  /-- A response arrives. -/
  | deliverResponse {s a request : ℕ} {value : String} {rest : List (ℕ × String)}
      (hresponses : st.responses s a = (request, value) :: rest) :
      NetworkMove numClients st (.deliverResponse s a)
        (deliverGetResponse st s a request value rest)
  /-- A server receives a request. -/
  | serverReceive {s a request : ℕ} {key : String} {rest : List (ℕ × String)}
      (hrequests : st.requests a s = (request, key) :: rest) :
      NetworkMove numClients st (.serverReceive s a) (receiveRequest st s a request key rest)
  /-- A server answers a request. -/
  | answer {s i a request : ℕ} {key value : String} {rest : List (ℕ × ℕ × String)}
      (hunanswered : dequeueAt (st.unanswered s) i = some ((a, request, key), rest)) :
      NetworkMove numClients st (.answer s i value) (answerRequest st s a request value rest)

/-- Every step is one of the moves. -/
theorem networkMove_of_step {numClients : ℕ} {st st' : NetworkState} {l : NetworkLabel}
    (hs : networkStep numClients st l = some st') : NetworkMove numClients st l st' := by
  unfold networkStep at hs
  split at hs
  case h_1 a =>
    split at hs
    case h_1 hpc hscript => exact Option.some.inj hs ▸ .beginSync hpc hscript
    case h_2 hpc hscript => exact Option.some.inj hs ▸ .beginGet hpc hscript
    case h_3 => cases hs
  case h_2 a =>
    split at hs
    case h_1 i hpc =>
      split at hs
      · next hi =>
        split at hs
        · next hia =>
          subst hia
          exact Option.some.inj hs ▸ .skipSelf hpc hi
        · next hia => exact Option.some.inj hs ▸ .sendSyncTo hpc hi hia
      · next hi => exact Option.some.inj hs ▸ .beginWait hpc (Nat.not_lt.mp hi)
    case h_2 => cases hs
  case h_3 a =>
    split at hs
    case h_1 hpc hchannel => exact Option.some.inj hs ▸ .finishGet hpc hchannel
    case h_2 hpc hchannel =>
      split at hs
      · next hi => exact Option.some.inj hs ▸ .takeSync hpc hchannel hi
      · cases hs
    case h_3 => cases hs
  case h_4 a =>
    split at hs
    case h_1 i indices hpc =>
      split at hs
      · cases hs
      · next hi =>
        split at hs
        · next hacks => exact Option.some.inj hs ▸ .failSync hpc (Nat.not_lt.mp hi) hacks
        · next hacks =>
          exact Option.some.inj hs ▸ .endSync hpc (Nat.not_lt.mp hi) (not_not.mp hacks)
    case h_2 => cases hs
  case h_5 b a =>
    split at hs
    case h_1 hsyncs => exact Option.some.inj hs ▸ .deliverSync hsyncs
    case h_2 => cases hs
  case h_6 s a =>
    split at hs
    case h_1 hresponses => exact Option.some.inj hs ▸ .deliverResponse hresponses
    case h_2 => cases hs
  case h_7 s a =>
    split at hs
    case h_1 hrequests => exact Option.some.inj hs ▸ .serverReceive hrequests
    case h_2 => cases hs
  case h_8 s i value =>
    split at hs
    case h_1 hunanswered => exact Option.some.inj hs ▸ .answer hunanswered
    case h_2 => cases hs

end TwigKV.ClientSync
