import Twinkleshine.Server.Send
import Twinkleshine.Strtol

/-!
# Receiving requests

Reference: `source/server/receive.c`.
-/

namespace Twinkleshine

open Library

/-! ## Messages -/

/-- `"guppy://"` -/
def guppyScheme : List UInt8 := ascii "guppy://"

/-- An acknowledgement writes the counter of its chunk. -/
def acknowledgeChunk (seq : ℕ) (client : Client) : Outcome ExError Client Unit :=
  let response := client.response
  let location : ValueLocation :=
    ⟨sizeAdd (sizeAdd sizeofResponse response.chunks.offset) (sizeSub seq response.firstChunk), 1⟩
  match ringGet client.responseQueue location false with
  | .error e => .error (extend .closeLog e) client -- don't die because seq came from the internet
  | .ok value => .ok () { client with responseQueue := client.responseQueue.write value [255] }

/-- `memcmp(end, "\r\n", 3) != 0 && seq >= first_chunk && seq < first_chunk + chunks.size`, where the bytes of
the buffer behind the list are zero -/
def acknowledgementPasses (response : Response) (seq : ℕ) (tail : List UInt8) : Bool :=
  (tail ++ [0, 0, 0]).take 3 ≠ [13, 10, 0] && response.firstChunk ≤ seq &&
    seq < sizeAdd response.firstChunk response.chunks.size

/-- `server_receive_data_guppy` -/
def serverReceiveDataGuppy (i : ℕ) (realloc : Realloc) (v : Visit) : Outcome ExError Visit Unit :=
  let s := v.server
  if s.shortRequestMessageOwner ≠ some (s.pointer i) then .ok () { v with flags.saturated := true }
  else
    let message := s.shortRequestMessage
    let size := s.shortRequestMessageSize
    let handled : Outcome ExError Server Unit :=
      if size ≥ guppyScheme.length ∧ message.take guppyScheme.length = guppyScheme then
        -- request
        s.onClient i fun client =>
          (((ringReserve client.requestStream (client.requestStream.size + size) realloc).mapError
            (extend .closeLog)).andThen fun _ stream =>
              (ringPushWrite stream (message.take size)).mapError (extend .closeLogDie)).mapState
                fun stream => { client with requestStream := stream }
      else
        -- acknowledgement
        let (seq, tail) := strtoul message
        if acknowledgementPasses (s.client i).response seq tail then
          s.onClient i (acknowledgeChunk seq)
        else .error ⟨"Invalid acknowledgement", .sendCloseLog .unknown⟩ s
    (handled.mapState fun s => { v with server := s }).andThen fun _ v =>
    .ok () { v with server.shortRequestMessageSize := 0, server.shortRequestMessageOwner := none }

/-! ## Streams -/

/-- How the outside answers while a client's data are received. -/
structure ReceiveTrafficAnswers where
  /-- What `ioctl(fd, FIONREAD)` says, or why it failed -/
  available : Except String ℤ
  /-- What `string_errno()` says if it has not failed -/
  errno : String
  stream : ReceiveAnswers
  decrypt : DecryptAnswers

/-- How much a client's request stream is asked to receive: at least `MIN_AVAILABLE_REQUEST_STREAM`, but
no more than it has room for. -/
def availableSize (available size : ℕ) : ℕ :=
  let available := if available < minAvailableRequestStream then minAvailableRequestStream else available
  if available > sizeSub maxRequestStreamSize size then sizeSub maxRequestStreamSize size
  else available

/-- `if (client->request_stream.size > 0) client->last_request_stream_not_empty = now;` -/
def Client.noteNotEmpty (now : ℤ) (client : Client) : Client :=
  if client.requestStream.size > 0 then { client with lastRequestStreamNotEmpty := now } else client

/-- The part of `server_receive_traffic` behind `ioctl()`. -/
def receiveData (i : ℕ) (now : ℤ) (available : ℕ) (answers : ReceiveTrafficAnswers) (v : Visit) :
    Outcome ExError Visit Unit :=
  let client := v.server.client i
  let oldSize := client.requestStream.size
  ((serverReceiveStream (availableSize available oldSize) answers.stream v.flags
    client.requestStream).mapState fun (stream, flags) =>
      { v with server := v.server.setClient i { client with requestStream := stream }
               flags := flags }).andThen fun _ v =>
  let client := (v.server.client i).noteNotEmpty now
  let v := { v with server := v.server.setClient i client }
  if client.ssl then
    v.onServer fun s => s.onClient i (cryptographyDecrypt answers.decrypt oldSize)
  else .ok () v

/-- `server_receive_traffic` -/
def serverReceiveTraffic (i : ℕ) (now : ℤ) (answers : ReceiveTrafficAnswers) (v : Visit) :
    Outcome ExError Visit Unit :=
  if acceptingSocketIsMessage (v.server.client i).acceptingSocket then
    (serverReceiveDataGuppy i answers.stream.realloc v).andThen fun _ v =>
    .ok () { v with
      server := v.server.setClient i ((v.server.client i).noteNotEmpty now)
      flags.exhausted := true }
  else
    match answers.available with
    | .error errno => .error ⟨s!"ioctl() failed with {errno}", .closeLog⟩ v
    | .ok signedAvailable =>
      if signedAvailable < 0 then .error ⟨s!"ioctl() failed with {answers.errno}", .closeLog⟩ v
      else if ¬ signedAvailable.toNat ≤ maxAvailableRequestStream then
        .error ⟨"Too much data received", .sendCloseLog .maxAvailableRequestStream⟩ v
      else receiveData i now signedAvailable.toNat answers v

end Twinkleshine
