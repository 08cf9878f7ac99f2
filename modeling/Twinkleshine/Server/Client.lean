import Twinkleshine.Buffer
import Twinkleshine.Parser.Parse
import Twinkleshine.Processor.Process

/-!
# Clients and their table

Reference: `include/client.h`, `source/client.c`.

All clients share one short response stream, which belongs to at most one of them: a pointer into the
table of clients says to which. A pointer is a block and an index, so that a pointer that was not
adjusted when the table moved to another block points nowhere.

Everything the server does to the outside is an `Effect`, and the state keeps the list of them. The
fields named `birth` and the counter `births` are not in the source: they number the accepted clients,
so that what is sent can be told from what was generated for whom.
-/

namespace Twinkleshine

open Library

/-! ## Clients -/

/-- `enum CryptographyState` -/
inductive CryptographyState where
  /-- Handshake in progress -/
  | pendingHandshake
  /-- Handshake finished -/
  | operational
  /-- Shutdown in progress -/
  | pendingShutdown
  /-- Shutdown finished -/
  | shutdown
deriving DecidableEq, Repr

/-- `struct sockaddr_storage`, as far as the program looks into it. -/
structure Address where
  inet6 : Bool
  addr : ℕ
  port : ℕ
deriving DecidableEq, Repr

/-- `struct Client`. What OpenSSL keeps behind `ssl` and its buffers is not modelled, only whether
`ssl` is a null pointer. -/
structure Client where
  acceptingSocket : ℕ
  dead : Bool
  /-- Buffer for incoming data, contains many request contents -/
  requestStream : Ring
  /-- Metadata of the first request in the stream, and the parser that reads it -/
  progress : Progress
  /-- Buffer for outgoing data, contains response contents -/
  responseStream : Ring
  /-- Metadata of the first response -/
  response : Response
  /-- Metadata of all responses -/
  responseQueue : Ring
  /-- Metadata count -/
  responseCount : ℕ
  lastRequestComplete : ℤ
  lastRequestStreamNotEmpty : ℤ
  lastResponseStreamNotFull : ℤ
  lastResponseComplete : ℤ
  lastChunkSent : ℤ
  cryptographyState : CryptographyState
  /-- `ssl != NULL` -/
  ssl : Bool
  address : Address
  shuffleIndex : ℕ
  /-- Which of all the clients ever accepted this is -/
  birth : ℕ
deriving DecidableEq, Repr

/-- `ZERO_INIT` -/
def Client.zero : Client where
  acceptingSocket := 0
  dead := false
  requestStream := .zero
  progress := .zero
  responseStream := .zero
  response := .zero
  responseQueue := .zero
  responseCount := 0
  lastRequestComplete := 0
  lastRequestStreamNotEmpty := 0
  lastResponseStreamNotFull := 0
  lastResponseComplete := 0
  lastChunkSent := 0
  cryptographyState := .pendingHandshake
  ssl := false
  address := ⟨false, 0, 0⟩
  shuffleIndex := 0
  birth := 0

/-- A client is still the same one, and as much alive. -/
structure Client.SameIdentity (c d : Client) : Prop where
  acceptingSocket : d.acceptingSocket = c.acceptingSocket
  dead : d.dead = c.dead
  address : d.address = c.address
  shuffleIndex : d.shuffleIndex = c.shuffleIndex
  birth : d.birth = c.birth

theorem Client.SameIdentity.refl (c : Client) : c.SameIdentity c := ⟨rfl, rfl, rfl, rfl, rfl⟩

theorem Client.SameIdentity.trans {c d e : Client} (h : c.SameIdentity d) (h' : d.SameIdentity e) :
    c.SameIdentity e :=
  ⟨h'.acceptingSocket.trans h.acceptingSocket, h'.dead.trans h.dead, h'.address.trans h.address,
    h'.shuffleIndex.trans h.shuffleIndex, h'.birth.trans h.birth⟩

/-- What a connection's encryption never touches: the identity of a client, its request, and the times
that were noted. A client that is encrypted, or cannot be served, stays so. -/
structure Client.Same (c d : Client) : Prop extends Client.SameIdentity c d where
  progress : d.progress = c.progress
  lastRequestComplete : d.lastRequestComplete = c.lastRequestComplete
  lastRequestStreamNotEmpty : d.lastRequestStreamNotEmpty = c.lastRequestStreamNotEmpty
  lastResponseStreamNotFull : d.lastResponseStreamNotFull = c.lastResponseStreamNotFull
  lastResponseComplete : d.lastResponseComplete = c.lastResponseComplete
  secure : c.ssl = true ∨ c.cryptographyState ≠ .operational →
    d.ssl = true ∨ d.cryptographyState ≠ .operational

theorem Client.Same.refl (c : Client) : c.Same c := ⟨.refl c, rfl, rfl, rfl, rfl, rfl, id⟩

theorem Client.Same.trans {c d e : Client} (h : c.Same d) (h' : d.Same e) : c.Same e :=
  ⟨h.toSameIdentity.trans h'.toSameIdentity, h'.progress.trans h.progress,
    h'.lastRequestComplete.trans h.lastRequestComplete,
    h'.lastRequestStreamNotEmpty.trans h.lastRequestStreamNotEmpty,
    h'.lastResponseStreamNotFull.trans h.lastResponseStreamNotFull,
    h'.lastResponseComplete.trans h.lastResponseComplete, fun hc => h'.secure (h.secure hc)⟩

/-! ## Polls -/

/-- The bits of `events` and `revents`. -/
structure PollEvents where
  pollIn : Bool
  pollOut : Bool
  pollErr : Bool
  pollHup : Bool
deriving DecidableEq, Repr

def PollEvents.none : PollEvents := ⟨false, false, false, false⟩

/-- `struct pollfd`; the descriptor `-1` is `none`. -/
structure Poll where
  fd : Option ℕ
  events : PollEvents
  revents : PollEvents
  /-- Which of all the clients ever accepted this entry was made for -/
  birth : ℕ
deriving DecidableEq, Repr

def Poll.zero : Poll := ⟨none, .none, .none, 0⟩

/-! ## Effects -/

/-- What the server does to the outside. -/
inductive Effect where
  /-- A response with this text was generated for a request of the client with these words. -/
  | generated (birth : ℕ) (method resource text : List UInt8)
  /-- `send()` took bytes of a response, on the socket accepted for the client. -/
  | sent (birth : ℕ) (bytes : List UInt8)
  /-- `sendto()` was handed a chunk of a response for the client. -/
  | sentTo (birth : ℕ) (bytes : List UInt8)
  /-- `send()` or `sendto()` took bytes of a fixed response for the client. -/
  | sentFixed (birth : ℕ) (bytes : List UInt8)
  /-- A fixed text was sent to someone who did not become a client. -/
  | refused (bytes : List UInt8)
  /-- The log line of a response of the client that is sent. -/
  | success (birth : ℕ) (method resource : List UInt8)
  /-- `error_print` -/
  | errorPrinted (error : Error)
  /-- `close()` on the socket accepted for the client -/
  | closed (birth : ℕ)
deriving DecidableEq, Repr

/-- The descriptors that were closed, by the clients they were accepted for. -/
def closedIn (effects : List Effect) : List ℕ :=
  effects.filterMap fun
    | .closed birth => some birth
    | _ => none

@[simp] theorem closedIn_append (effects more : List Effect) :
    closedIn (effects ++ more) = closedIn effects ++ closedIn more :=
  List.filterMap_append ..

/-! ## The state of the server -/

/-- A `struct Client *` into the table. -/
structure ClientPointer where
  block : ℕ
  index : ℕ
deriving DecidableEq, Repr

/-- The table of clients, the table of polls, and the global variables. -/
structure Server where
  clients : Buffer Client
  polls : Buffer Poll
  buffers : InternalBuffers
  /-- Short-term buffer that replaces some client's response stream -/
  shortResponseStream : TextValue
  shortResponseStreamOwner : Option ClientPointer
  /-- Buffer that replaces some client's request stream -/
  shortRequestMessage : List UInt8
  shortRequestMessageOwner : Option ClientPointer
  shortRequestMessageSize : ℕ
  effects : List Effect
  /-- How many clients were ever accepted -/
  births : ℕ
deriving DecidableEq, Repr

/-- The state in which the server starts: no client, and the polls of the accepting sockets. The array behind
`g_short_request_message` is all zero; no byte of it is kept here, as those behind the list are zero. -/
def Server.initial (polls : Buffer Poll) : Server where
  clients := ⟨0, [], 0⟩
  polls := polls
  buffers := ⟨[], []⟩
  shortResponseStream := .zero
  shortResponseStreamOwner := none
  shortRequestMessage := []
  shortRequestMessageOwner := none
  shortRequestMessageSize := 0
  effects := []
  births := 0

/-- `clients->p + i` -/
def Server.pointer (s : Server) (i : ℕ) : ClientPointer := ⟨s.clients.p, i⟩

/-- `clients->p[i]` -/
def Server.client (s : Server) (i : ℕ) : Client := s.clients.elements.getD i .zero

def Server.setClient (s : Server) (i : ℕ) (client : Client) : Server :=
  { s with clients.elements := s.clients.elements.set i client }

@[simp] theorem Server.clients_setClient (s : Server) (i : ℕ) (client : Client) :
    (s.setClient i client).clients = { s.clients with elements := s.clients.elements.set i client } :=
  rfl

@[simp] theorem Server.effects_setClient (s : Server) (i : ℕ) (client : Client) :
    (s.setClient i client).effects = s.effects := rfl

/-- The last of two writes counts. -/
@[simp] theorem Server.setClient_setClient (s : Server) (i : ℕ) (client client' : Client) :
    (s.setClient i client).setClient i client' = s.setClient i client' := by
  simp [Server.setClient]

/-- The client that was written is read. -/
theorem Server.client_setClient {s : Server} {i : ℕ} (hi : i < s.clients.elements.length)
    (client : Client) : (s.setClient i client).client i = client := by
  simp [Server.client, hi]

/-- Writing one client leaves the others as they are. -/
theorem Server.client_setClient_of_ne (s : Server) {i j : ℕ} (h : i ≠ j) (client : Client) :
    (s.setClient i client).client j = s.client j := by
  simp [Server.client, List.getD_eq_getElem?_getD, h]

/-- `polls->p[k]` -/
def Server.poll (s : Server) (k : ℕ) : Poll := s.polls.elements.getD k .zero

/-- The poll that was made with client `i`. -/
def Server.ownPoll (s : Server) (i : ℕ) : Poll := s.poll (acceptingSockets + i)

def Server.setPoll (s : Server) (k : ℕ) (poll : Poll) : Server :=
  { s with polls.elements := s.polls.elements.set k poll }

def Server.emit (s : Server) (effect : Effect) : Server :=
  { s with effects := s.effects ++ [effect] }

/-- Whether the short response stream belongs to client `i`. -/
def Server.owns (s : Server) (i : ℕ) : Bool := s.shortResponseStreamOwner == some (s.pointer i)

theorem Server.owns_iff {s : Server} {i : ℕ} :
    s.owns i = true ↔ s.shortResponseStreamOwner = some (s.pointer i) := by
  simp [Server.owns]

theorem Server.owns_of_none {s : Server} (h : s.shortResponseStreamOwner = none) (i : ℕ) :
    s.owns i = false := by
  simp [Server.owns, h]

theorem Server.pointer_inj {s : Server} {i j : ℕ} : s.pointer i = s.pointer j ↔ i = j := by
  simp [Server.pointer]

/-- `client_response_stream_size`: the size of the response stream, including the short one. -/
def clientResponseStreamSize (s : Server) (i : ℕ) : ℕ :=
  (s.client i).responseStream.size + if s.owns i then s.shortResponseStream.size else 0

/-! ## Finalizing -/

/-- `client_finalize` -/
def clientFinalize (i : ℕ) (s : Server) : Server :=
  let s := s.setClient i { s.client i with dead := true }
  let s :=
    if s.shortRequestMessageOwner = some (s.pointer i) then
      { s with shortResponseStream := .zero, shortResponseStreamOwner := none }
    else s
  s.setClient i { s.client i with
    ssl := false
    requestStream := ringFinalize (s.client i).requestStream
    responseQueue := ringFinalize (s.client i).responseQueue
    responseStream := ringFinalize (s.client i).responseStream }

/-- What is left of a client that was finalized. -/
def Client.finalized (client : Client) : Client :=
  { client with
    dead := true
    ssl := false
    requestStream := ringFinalize client.requestStream
    responseQueue := ringFinalize client.responseQueue
    responseStream := ringFinalize client.responseStream }

theorem Server.setClient_of_length_le {s : Server} {i : ℕ} (h : s.clients.elements.length ≤ i)
    (client : Client) : s.setClient i client = s := by
  rw [Server.setClient, List.set_eq_of_length_le h]

/-- A client that is written back changes nothing. -/
@[simp] theorem Server.setClient_client (s : Server) (i : ℕ) : s.setClient i (s.client i) = s := by
  by_cases hi : i < s.clients.elements.length
  · have hset : s.clients.elements.set i (s.client i) = s.clients.elements := by
      rw [Server.client, List.getD_eq_getElem?_getD, List.getElem?_eq_getElem hi]
      exact List.set_getElem_self hi
    rw [Server.setClient, hset]
  · exact Server.setClient_of_length_le (Nat.not_lt.mp hi) _

/-- `client_finalize` writes the client once, and frees the short response stream when the client owns
the message that was received. -/
theorem clientFinalize_eq (i : ℕ) (s : Server) :
    clientFinalize i s = { s.setClient i (s.client i).finalized with
      shortResponseStream := if s.shortRequestMessageOwner = some (s.pointer i) then .zero
        else s.shortResponseStream
      shortResponseStreamOwner := if s.shortRequestMessageOwner = some (s.pointer i) then none
        else s.shortResponseStreamOwner } := by
  set marked := s.setClient i { s.client i with dead := true } with hmarked
  have hwrite : marked.setClient i { marked.client i with
        ssl := false
        requestStream := ringFinalize (marked.client i).requestStream
        responseQueue := ringFinalize (marked.client i).responseQueue
        responseStream := ringFinalize (marked.client i).responseStream }
      = s.setClient i (s.client i).finalized := by
    by_cases hi : i < s.clients.elements.length
    · rw [hmarked, Server.client_setClient hi, Server.setClient_setClient]
      rfl
    · rw [hmarked, Server.setClient_of_length_le (Nat.not_lt.mp hi),
        Server.setClient_of_length_le (Nat.not_lt.mp hi),
        Server.setClient_of_length_le (Nat.not_lt.mp hi)]
  have hcond : (marked.shortRequestMessageOwner = some (marked.pointer i))
      = (s.shortRequestMessageOwner = some (s.pointer i)) := rfl
  rw [clientFinalize]
  simp only [← hmarked, hcond]
  by_cases howner : s.shortRequestMessageOwner = some (s.pointer i)
  · simp only [if_pos howner]
    exact congrArg (fun t : Server => { t with
      shortResponseStream := .zero, shortResponseStreamOwner := none }) hwrite
  · simp only [if_neg howner]
    exact hwrite

/-- `poll_finalize` -/
def pollFinalize (k : ℕ) (s : Server) : Server :=
  match (s.poll k).fd with
  | none => s
  | some _ => (s.emit (.closed (s.poll k).birth)).setPoll k { s.poll k with fd := none }

/-- The loop of `clients_remove_finalized`, from client and poll number `clientI` on: the clients and
the polls that survive, which go to the places from `survivingI` on, and the owner of the short
response stream. -/
def removeFinalized (block : ℕ) : ℕ → ℕ → List Client → List Poll → Option ClientPointer →
    List Client × List Poll × Option ClientPointer
  | clientI, survivingI, client :: clients, poll :: polls, owner =>
    if client.dead then removeFinalized block (clientI + 1) survivingI clients polls owner
    else
      let owner :=
        if some ⟨block, clientI⟩ = owner then some ⟨block, clientI - (clientI - survivingI)⟩
        else owner
      let (clients, polls, owner) :=
        removeFinalized block (clientI + 1) (survivingI + 1) clients polls owner
      (client :: clients, poll :: polls, owner)
  | _, _, _, _, owner => ([], [], owner)

/-- `clients_remove_finalized` -/
def clientsRemoveFinalized (s : Server) : Server :=
  let (clients, polls, owner) := removeFinalized s.clients.p 0 0 s.clients.elements
    (s.polls.elements.drop acceptingSockets) s.shortResponseStreamOwner
  { s with
    clients.elements := clients
    polls.elements := s.polls.elements.take acceptingSockets ++ polls
    shortResponseStreamOwner := owner }

/-! ## Appending -/

/-- The pointers are recomputed from their index when the table may have moved. -/
def ClientPointer.moveTo (block : ℕ) (pointer : ClientPointer) : ClientPointer :=
  { pointer with block := block }

/-- `clients_append` for one client -/
def clientsAppend (realloc : Option ℕ) (client : Client) (s : Server) : Outcome Error Server Unit :=
  (genericBufferAppend realloc s.clients [client]).mapState fun clients =>
    { s with
      clients := clients
      shortRequestMessageOwner := s.shortRequestMessageOwner.map (·.moveTo clients.p)
      shortResponseStreamOwner := s.shortResponseStreamOwner.map (·.moveTo clients.p) }

/-- `polls_append` for one poll -/
def pollsAppend (realloc : Option ℕ) (poll : Poll) (s : Server) : Outcome Error Server Unit :=
  (genericBufferAppend realloc s.polls [poll]).mapState fun polls => { s with polls := polls }

end Twinkleshine
