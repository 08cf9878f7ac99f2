import Twinkleshine.Server.Process

/-!
# Sending responses

Reference: `source/server/send.c`.
-/

namespace Twinkleshine

open Library

/-! ## Popping metadata -/

/-- A client, and the effects of what is done to it. -/
structure Popping where
  client : Client
  effects : List Effect
deriving DecidableEq, Repr

/-- `server_pop_response` -/
def serverPopResponse (s : Popping) : Outcome Error Popping Unit :=
  let client := s.client
  ((ringPop client.responseQueue sizeofResponse).mapState fun queue =>
    { s with client := { client with responseQueue := queue } }).andThen fun _ s =>
  let client := s.client
  if client.response.silent then .ok () s -- phony
  else
    match ringLookup client.responseQueue client.response.method with
    | .error e => .error e s
    | .ok method =>
      match ringLookup client.responseQueue client.response.resource with
      | .error e => .error e s
      | .ok resource =>
        let effects := s.effects ++ [.success client.birth method.bytes resource.bytes]
        (ringPop client.responseQueue client.response.size).mapState fun queue =>
          ⟨{ client with responseQueue := queue }, effects⟩

/-- The next response of the queue becomes the current one, if there is one. -/
def nextResponse (s : Popping) : Outcome Error Popping Unit :=
  if s.client.responseQueue.size > 0 then
    match ringLookup s.client.responseQueue ⟨0, sizeofResponse⟩ with
    | .error e => .error e s
    | .ok value => .ok () { s with client.response := .decode (valueRead value) }
  else .ok () s

/-- The loop of `server_pop_responses`. Every round but the last takes a structure out of the queue, so
the size of the queue bounds the number of rounds. -/
def popResponsesLoop (now : ℤ) : ℕ → ℕ → Popping → Outcome Error Popping Unit
  | 0, _, _ => .hang
  | fuel + 1, sentStreamSize, s =>
    if sentStreamSize > 0 then
      if sentStreamSize ≥ s.client.response.streamSize then
        -- sent
        (serverPopResponse s).andThen fun _ s =>
        let streamSize := s.client.response.streamSize
        let client := { s.client with
          lastResponseComplete := now
          responseCount := s.client.responseCount - 1
          response.streamSize := 0 }
        (nextResponse { s with client := client }).andThen fun _ s =>
        popResponsesLoop now fuel (sentStreamSize - streamSize) s
      else
        -- not sent
        let streamSize := s.client.response.streamSize - sentStreamSize
        .ok () { s with client.response.streamSize := streamSize }
    else .ok () s

/-- `server_pop_responses` -/
def serverPopResponses (i : ℕ) (now : ℤ) (sentStreamSize : ℕ) (s : Server) :
    Outcome Error Server Unit :=
  let client := s.client i
  (popResponsesLoop now (client.responseQueue.size + 2) sentStreamSize ⟨client, []⟩).mapState fun t =>
    { s.setClient i t.client with effects := s.effects ++ t.effects }

/-! ## Sending -/

/-- What the server keeps while it serves one client: the flags of the connection, whether this is the
first round, and whether the round did something. -/
structure Visit where
  server : Server
  flags : ConnectionFlags
  first : Bool
  doneSomething : Bool
deriving DecidableEq, Repr

/-- A computation on the server alone. -/
def Visit.onServer {α : Type} (v : Visit) (f : Server → Outcome ExError Server α) :
    Outcome ExError Visit α :=
  (f v.server).mapState fun s => { v with server := s }

/-- A part of a response after `n` bytes of it are sent. -/
def TextPart.advance (part : TextPart) (n : ℕ) : TextPart :=
  ⟨part.source, part.offset + n, part.size - n⟩

/-- A response after `n` bytes of it are sent. -/
def TextValue.advance (value : TextValue) (n : ℕ) : TextValue :=
  ⟨value.part0.advance (min n value.part0.size), value.part1.advance (n - value.part0.size)⟩

/-- What `server_send_stream` leaves behind: the value is advanced past what was taken. -/
def Visit.afterStream (v : Visit) (i : ℕ) (advance : ℕ → Server → Server) (r : Sending) : Visit :=
  let birth := (v.server.poll (acceptingSockets + i)).birth
  { v with
    server := (advance r.taken.length v.server).emit (.sent birth r.taken)
    flags.saturated := v.flags.saturated || r.saturated }

/-- `server_send_stream` on a value, to the socket of client `i`: how much of it was sent. The value is
advanced also when the call fails on its second part. -/
def sendStream (i : ℕ) (answers : SendAnswer × SendAnswer) (advance : ℕ → Server → Server)
    (stream : ConstantValue) (v : Visit) : Outcome ExError Visit ℕ :=
  (serverSendStream answers stream).handle
    (fun e r => .error (extend .closeLog e) (v.afterStream i advance r)) fun _ r =>
  .ok r.taken.length (v.afterStream i advance r)

/-- What `server_send_message` leaves behind: the counters in the response queue are those it
returned. -/
def Server.afterMessage (s : Server) (i : ℕ) (chunks : MutableValue) (lastChunkSent : ℤ)
    (r : Messaging) : Server :=
  let client := s.client i
  let queue := client.responseQueue.write chunks r.chunks
  let s := s.setClient i { client with responseQueue := queue, lastChunkSent := lastChunkSent }
  { s with effects := s.effects ++ r.datagrams.map (.sentTo client.birth) }

/-- `server_send_message` on a value, as both callers use it: how much of it was sent. -/
def sendMessage (i : ℕ) (now : ℤ) (advance : ℕ → Server → Server) (stream : ConstantValue)
    (v : Visit) : Outcome ExError Visit ℕ :=
  let client := v.server.client i
  let response := client.response
  (Outcome.ofOption (intLength (sizeSub (sizeAdd response.firstChunk response.chunks.size) 1))
    v).andThen fun length v =>
  let location : ValueLocation := ⟨sizeofResponse + response.chunks.offset, response.chunks.size⟩
  (Outcome.ofExcept ((ringGet client.responseQueue location false).mapError (extend .closeLogDie))
    v).andThen fun chunks v =>
  let real := client.lastChunkSent = 0 || now ≥ client.lastChunkSent + chunkSendRepeatTime
  (serverSendMessage stream (if real then some client.address else none) response.firstChunk
    (chunks.read client.responseQueue.p).bytes (length + 2)).handle
    (fun e r =>
      .error e { v with server := v.server.afterMessage i chunks client.lastChunkSent r }) fun _ r =>
  let sentStreamSize := if r.finished then valueSize stream else 0
  let server := v.server.afterMessage i chunks (if real then now else client.lastChunkSent) r
  .ok sentStreamSize { v with server := advance sentStreamSize server, flags.saturated := true }

/-- The dispatch between the two: how much of a value was sent. -/
def sendValue (i : ℕ) (now : ℤ) (answers : SendAnswer × SendAnswer) (advance : ℕ → Server → Server)
    (stream : ConstantValue) (v : Visit) : Outcome ExError Visit ℕ :=
  if acceptingSocketIsConnection (v.server.client i).acceptingSocket then
    sendStream i answers advance stream v
  else sendMessage i now advance stream v

/-- The short response stream after `n` bytes of it are sent. -/
def advanceShort (n : ℕ) (s : Server) : Server :=
  { s with shortResponseStream := s.shortResponseStream.advance n }

/-- `server_send_short_response_stream` -/
def serverSendShortResponseStream (i : ℕ) (now : ℤ) (answers : SendAnswer × SendAnswer) (v : Visit) :
    Outcome ExError Visit Unit :=
  -- send chunk of data
  (sendValue i now answers advanceShort (v.server.shortResponseStream.read v.server.buffers)
    v).andThen fun sentStreamSize v =>
  let v :=
    if v.server.shortResponseStream.size = 0 then { v with server.shortResponseStreamOwner := none }
    else v
  -- analyze what was in that chunk of data
  v.onServer fun s => (serverPopResponses i now sentStreamSize s).mapError (extend .closeLogDie)

/-- The long response stream after `n` bytes of it are sent. -/
def popLong (i n : ℕ) (s : Server) : Outcome ExError Server Unit :=
  s.onClient i fun client =>
    ((ringPop client.responseStream n).mapError (extend .closeLogDie)).mapState
      fun stream => { client with responseStream := stream }

/-- `server_send_long_output_buffer` -/
def serverSendLongOutputBuffer (i : ℕ) (now : ℤ) (answers : SendAnswer × SendAnswer) (v : Visit) :
    Outcome ExError Visit Unit :=
  let ring := (v.server.client i).responseStream
  -- send chunk of data
  (sendValue i now answers (fun _ s => s) ((ringGetAll ring).read ring.p) v).andThen
    fun sentStreamSize v =>
  (v.onServer (popLong i sentStreamSize)).andThen fun _ v =>
  -- analyze what was in that chunk of data
  v.onServer fun s => (serverPopResponses i now sentStreamSize s).mapError (extend .closeLogDie)

/-- How the kernel answers while a client is sent its responses. -/
structure SendAnswers where
  short : SendAnswer × SendAnswer
  long : SendAnswer × SendAnswer
deriving DecidableEq, Repr

/-- `server_send_traffic` -/
def serverSendTraffic (i : ℕ) (now : ℤ) (answers : SendAnswers) (v : Visit) :
    Outcome ExError Visit Unit :=
  (if v.server.owns i then
    (serverSendShortResponseStream i now answers.short v).andThen fun _ v =>
      .ok v.server.shortResponseStream.size v
  else .ok 0 v).andThen fun shortResponseStreamSize v =>
  (if v.flags.saturated = false ∧ (v.server.client i).responseStream.size > 0 then
    serverSendLongOutputBuffer i now answers.long v
  else .ok () v).andThen fun _ v =>
  let client := v.server.client i
  if shortResponseStreamSize + client.responseStream.size < maxResponseStreamSize then
    .ok () { v with server := v.server.setClient i { client with lastResponseStreamNotFull := now } }
  else .ok () v

end Twinkleshine
