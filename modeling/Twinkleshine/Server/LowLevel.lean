import Twinkleshine.Server.Client
import Twinkleshine.Utility

/-!
# Sending and receiving

Reference: `source/server/low_level.c`.

The kernel's answers are arguments: how much a `send()` took, what a `read()` delivered. A stream that
is sent is a value in two parts; each part takes one call.
-/

namespace Twinkleshine

open Library

/-! ## Flags -/

/-- `enum ConnectionFlag`, a set of bits. -/
structure ConnectionFlags where
  /-- `send()` failed -/
  saturated : Bool
  /-- `read()` failed -/
  exhausted : Bool
  /-- `read()` failed because of closed connection -/
  closed : Bool
deriving DecidableEq, Repr

/-- `CF_NO` -/
def ConnectionFlags.no : ConnectionFlags := ⟨false, false, false⟩

/-! ## Streams out -/

/-- How the kernel answers a `send()`. -/
inductive SendAnswer where
  /-- It takes as many of these bytes as there are, and at least one. -/
  | took (bytes : ℕ) (pos : 0 < bytes)
  /-- `EAGAIN` or `EWOULDBLOCK` -/
  | wouldBlock
  | failed (errno : String)
deriving DecidableEq, Repr

/-- What is left of a stream, the bytes of it that were taken, and whether the socket is saturated. -/
structure Sending where
  stream : ConstantValue
  taken : List UInt8
  saturated : Bool
deriving DecidableEq, Repr

/-- The body of the loop of `server_send_stream` for one part: what is left of it, what was taken, and
whether the loop breaks because the socket is saturated. -/
def sendPart (answer : SendAnswer) (part : List UInt8) :
    Except Error (List UInt8 × List UInt8 × Bool) :=
  if part.length = 0 then .ok (part, [], false)
  else
    match answer with
    | .took n _ => .ok (part.drop n, part.take n, 0 < part.length - n)
    | .wouldBlock => .ok (part, [], true)
    | .failed errno => .error s!"send() failed with {errno}"

/-- `server_send_stream` -/
def serverSendStream (answers : SendAnswer × SendAnswer) (stream : ConstantValue) :
    Outcome Error Sending Unit :=
  match sendPart answers.1 stream.part0 with
  | .error e => .error e ⟨stream, [], false⟩
  | .ok (part0, taken0, saturated0) =>
    if saturated0 then .ok () ⟨⟨part0, stream.part1⟩, taken0, true⟩
    else
      match sendPart answers.2 stream.part1 with
      | .error e => .error e ⟨⟨part0, stream.part1⟩, taken0, false⟩
      | .ok (part1, taken1, saturated1) =>
        .ok () ⟨⟨part0, part1⟩, taken0 ++ taken1, saturated1⟩

/-! ## Messages out -/

/-- What `server_send_message` changes: the counters of the chunks, one signed byte each; the
datagrams it handed to `sendto()`; and whether it set the sizes of the message to zero. -/
structure Messaging where
  chunks : List UInt8
  datagrams : List (List UInt8)
  finished : Bool
deriving DecidableEq, Repr

/-- The sizes `server_send_message` computes before its loop. -/
structure ChunkSizes where
  lastChunk : ℕ
  secondLastChunk : ℕ
  lastChunkSize : ℕ
  secondLastChunkSize : ℕ

def ChunkSizes.of (messageSize firstChunk chunkNumber lastChunkSize : ℕ) : ChunkSizes where
  lastChunk := (firstChunk + chunkNumber + (uintModulus - 1)) % uintModulus
  secondLastChunk := (firstChunk + chunkNumber + (uintModulus - 2)) % uintModulus
  lastChunkSize := lastChunkSize
  secondLastChunkSize := sizeSub (sizeSub messageSize lastChunkSize)
    (chunkSize * ((chunkNumber + (uintModulus - 2)) % uintModulus) % uintModulus)

/-- `chunk_size` -/
def ChunkSizes.size (sizes : ChunkSizes) (chunk : ℕ) : ℕ :=
  if chunk = sizes.secondLastChunk then sizes.secondLastChunkSize
  else if chunk = sizes.lastChunk then sizes.lastChunkSize
  else chunkSize

/-- The loop of `server_send_message` over the counters that are left; those in `done` went before.
What is sent of a chunk is what the message still has of it. Without an address this is a dry run. The
value is how many chunks are acknowledged, `none` when the function returned inside the loop. -/
def sendChunks (sizes : ChunkSizes) (address : Option Address) :
    List UInt8 → ℕ → ConstantValue → (sent acknowledged : ℕ) → (done : List UInt8) →
      List (List UInt8) → Outcome ExError Messaging (Option ℕ)
  | [], _, _, _, acknowledged, done, datagrams => .ok (some acknowledged) ⟨done, datagrams, false⟩
  | p :: rest, chunk, message, sent, acknowledged, done, datagrams =>
    let (message, first) := valueFirstSecond message (sizes.size chunk)
    if ¬ p.toInt8.toInt < chunkSendRepeats then
      .error ⟨"*p < CHUNK_SEND_REPEATS", .shutdownLog⟩ ⟨done ++ p :: rest, datagrams, false⟩
    else if p.toInt8.toInt < 0 then -- acknowledged, don't send
      sendChunks sizes address rest ((chunk + 1) % uintModulus) message sent (acknowledged + 1)
        (done ++ [p]) datagrams
    else
      match address with
      | none =>
        sendChunks sizes none rest ((chunk + 1) % uintModulus) message sent acknowledged (done ++ [p])
          datagrams
      | some address =>
        let datagrams := datagrams ++ [valueToContinuous first]
        if sent + 1 = chunkSendSimultaneous then
          .ok none ⟨done ++ (p + 1) :: rest, datagrams, false⟩
        else
          sendChunks sizes (some address) rest ((chunk + 1) % uintModulus) message (sent + 1)
            acknowledged (done ++ [p + 1]) datagrams

/-- `server_send_message` -/
def serverSendMessage (message : ConstantValue) (address : Option Address) (firstChunk : ℕ)
    (chunks : List UInt8) (lastChunkSize : ℕ) : Outcome ExError Messaging Unit :=
  let sizes :=
    ChunkSizes.of (valueSize message) firstChunk (chunks.length % uintModulus) lastChunkSize
  (sendChunks sizes address chunks firstChunk message 0 0 [] []).andThen fun acknowledged result =>
    .ok () { result with finished := acknowledged = some (chunks.length % uintModulus) }

/-! ## Streams in -/

/-- How the kernel, or OpenSSL, answers a read. -/
inductive ReadAnswer where
  /-- It delivers as many of these bytes as fit, and at least one. -/
  | data (first : UInt8) (rest : List UInt8)
  /-- The connection is closed. -/
  | ended
  /-- There is nothing to read. -/
  | wouldBlock
  | failed (errno : String)
deriving DecidableEq, Repr

/-- How the reads into the parts of a value went. -/
structure Reception where
  bytes : List UInt8
  /-- A read reported the end of the connection. -/
  ended : Bool
  /-- A read would have blocked, or delivered less than it was asked for. -/
  exhausted : Bool
deriving DecidableEq, Repr

/-- The loop that reads into the parts of a value: the size of every part, with the answer of its
read. It breaks at the first read that does not fill its part. -/
def readParts : List (ℕ × ReadAnswer) → Outcome String Reception Unit
  | [] => .ok () ⟨[], false, false⟩
  | (size, answer) :: parts =>
    if size = 0 then readParts parts
    else
      match answer with
      | .data first rest =>
        let received := (first :: rest).take size
        if received.length < size then .ok () ⟨received, false, true⟩
        else (readParts parts).mapState fun r => { r with bytes := received ++ r.bytes }
      | .ended => .ok () ⟨[], true, false⟩
      | .wouldBlock => .ok () ⟨[], false, true⟩
      | .failed errno => .error errno ⟨[], false, false⟩

/-- Both parts of a value, with the answers of the reads. -/
def MutableValue.reads (value : MutableValue) (answers : ReadAnswer × ReadAnswer) :
    List (ℕ × ReadAnswer) :=
  [(value.part0.size, answers.1), (value.part1.size, answers.2)]

/-- What the outside decides when a stream is received. -/
structure ReceiveAnswers where
  realloc : Realloc
  reads : ReadAnswer × ReadAnswer

/-- `server_receive_stream` -/
def serverReceiveStream (size : ℕ) (answers : ReceiveAnswers) (flags : ConnectionFlags)
    (stream : Ring) : Outcome ExError (Ring × ConnectionFlags) Unit :=
  -- get buffer
  (ringReserve stream (stream.size + size) answers.realloc).handle
    (fun e stream => .error (extend .closeLog e) (stream, flags)) fun _ stream =>
  (ringPushGet stream size).handle
    (fun e stream => .error (extend .closeLogDie e) (stream, flags)) fun value stream =>
  -- receive
  (readParts (value.reads answers.reads)).handle
    (fun errno r => .error (extend .closeLog s!"read() failed with {errno}")
      (stream.write value r.bytes, flags)) fun _ r =>
  let stream := stream.write value r.bytes
  let flags := { flags with
    closed := flags.closed || r.ended
    exhausted := flags.exhausted || r.exhausted }
  -- check for unused buffer
  (ringUnpush stream (value.part0.size + value.part1.size - r.bytes.length)).handle
    (fun e stream => .error (extend .closeLogDie e) (stream, flags)) fun _ stream =>
  .ok () (stream, flags)

end Twinkleshine
