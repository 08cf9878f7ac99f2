import Twinkleshine.Server.Cryptography

/-!
# Processing requests

Reference: `source/server/process.c`.
-/

namespace Twinkleshine

open Library

/-! ## Pushing values -/

/-- `server_reserve_push_value` -/
def serverReservePushValue (realloc : Realloc) (data : ConstantValue) (responseStream : Ring) :
    Outcome ExError Ring Unit :=
  ((ringReserve responseStream (responseStream.size + valueSize data) realloc).mapError
    (extend .closeLog)).andThen fun _ stream =>
  (ringPushParts stream data).mapError (extend .closeLogDie)

/-- A computation on one client of the server. -/
def Server.onClient {ε α : Type} (s : Server) (i : ℕ) (f : Client → Outcome ε Client α) :
    Outcome ε Server α :=
  (f (s.client i)).mapState (s.setClient i)

theorem Server.onClient_eq_ok {ε α : Type} {s t : Server} {i : ℕ} {f : Client → Outcome ε Client α}
    {a : α} (h : s.onClient i f = .ok a t) :
    ∃ client, f (s.client i) = .ok a client ∧ t = s.setClient i client := by
  obtain ⟨client, hf, rfl⟩ := Outcome.mapState_eq_ok.mp h
  exact ⟨client, hf, rfl⟩

/-- A computation on one client, seen from that client. -/
theorem Server.onClient_client {ε α : Type} {s t : Server} {i : ℕ} {f : Client → Outcome ε Client α}
    {a : α} (hi : i < s.clients.elements.length) (h : s.onClient i f = .ok a t) :
    f (s.client i) = .ok a (t.client i) ∧
      t.clients.elements.length = s.clients.elements.length := by
  obtain ⟨client, hf, rfl⟩ := Server.onClient_eq_ok h
  rw [Server.client_setClient hi]
  exact ⟨hf, List.length_set⟩

/-! ## The blocks of `server_process_traffic` -/

/-- What the outside decides while a request is processed. -/
structure ProcessAnswers where
  flush : Realloc
  processor : ProcessorEnvironment
  store : Realloc
  encrypt : EncryptAnswers
  finalize : ShutdownAnswers

/-- Parse request -/
def parseRequest (client : Client) : Outcome ExError Client Unit :=
  (parserParse client.acceptingSocket client.requestStream client.progress).mapState fun progress =>
    { client with progress := progress }

/-- Flush short output buffer to long output buffer because we are about to get another portion of data
to send -/
def flushShortResponseStream (realloc : Realloc) (s : Server) : Outcome ExError Server Unit :=
  match s.shortResponseStreamOwner with
  | none => .ok () s
  | some owner =>
    let data := s.shortResponseStream.read s.buffers
    (s.onClient owner.index fun client =>
      (serverReservePushValue realloc data client.responseStream).mapState fun stream =>
        { client with responseStream := stream }).andThen fun _ s =>
    .ok () { s with shortResponseStream := .zero, shortResponseStreamOwner := none }

/-- Generate response -/
def generateResponse (i : ℕ) (env : ProcessorEnvironment) (s : Server) :
    Outcome ExError Server (Response × TextValue) :=
  let client := s.client i
  (processorProcess client.acceptingSocket client.progress.request
    (ringLookup client.requestStream) env ⟨s.buffers, client.responseQueue⟩).mapState fun t =>
      { s.setClient i { client with responseQueue := t.responseQueue } with buffers := t.buffers }

/-- The words of the request that is answered. -/
def requestLog (client : Client) (text : List UInt8) : Effect :=
  let word (location : ValueLocation) : List UInt8 :=
    match ringLookup client.requestStream location with
    | .ok value => value.bytes
    | .error _ => []
  .generated client.birth (word client.progress.request.method)
    (word client.progress.request.resource) text

/-- The request is taken out of the request stream; its response is the current one if no other is. -/
def takeRequest (response : Response) (client : Client) : Outcome ExError Client Unit :=
  (((ringPop client.requestStream client.progress.request.streamSize).mapError
    (extend .closeLogDie)).mapState fun stream => { client with requestStream := stream }).andThen
      fun _ client =>
  .ok () (if client.responseCount = 0 then { client with response := response } else client)

/-- Save the response to either short-term or long-term buffer -/
def storeResponse (i : ℕ) (answers : ProcessAnswers) (response : Response) (stream : TextValue)
    (s : Server) : Outcome ExError Server Unit :=
  if (s.client i).ssl then s.onClient i (cryptographyEncrypt answers.encrypt response)
  else if (s.client i).responseStream.size > 0 then
    s.onClient i fun client =>
      (serverReservePushValue answers.store (stream.read s.buffers) client.responseStream).mapState
        fun stream => { client with responseStream := stream }
  else
    .ok () { s with
      shortResponseStream := stream
      shortResponseStreamOwner := some (s.pointer i) }

/-- Reset parser for future data -/
def resetParser (answers : ShutdownAnswers) (client : Client) : Outcome ExError Client Unit :=
  if client.response.keepAlive then .ok () { client with progress := .zero }
  else if client.ssl then cryptographyFinalize answers client
  else .ok () client

/-! ## `server_process_traffic` -/

/-- What `server_process_traffic` does with a complete request. -/
def processRequest (i : ℕ) (answers : ProcessAnswers) (s : Server) : Outcome ExError Server Unit :=
  (flushShortResponseStream answers.flush s).andThen fun _ s =>
  (generateResponse i answers.processor s).andThen fun (response, stream) s =>
  let s := s.emit (requestLog (s.client i) (stream.read s.buffers).bytes)
  (s.onClient i (takeRequest response)).andThen fun _ s =>
  (storeResponse i answers response stream s).andThen fun _ s =>
  let s := s.setClient i { s.client i with responseCount := (s.client i).responseCount + 1 }
  s.onClient i (resetParser answers.finalize)

/-- `server_process_traffic` -/
def serverProcessTraffic (i : ℕ) (now : ℤ) (answers : ProcessAnswers) (s : Server) :
    Outcome ExError Server Unit :=
  -- parse request, quit if the request is incomplete
  (s.onClient i parseRequest).andThen fun _ s =>
  if (s.client i).progress.parser.state ≠ .end then .ok () s
  else
    processRequest i answers (s.setClient i { s.client i with lastRequestComplete := now })

end Twinkleshine
