import Twinkleshine.Server.Receive

/-!
# Accepting clients

Reference: `source/server/accept.c`.

A client is made on the stack, with its poll, and both are appended to their tables; when the second
append fails the sizes of both are restored. The number of a client, its `birth`, is how many were
accepted before it.
-/

namespace Twinkleshine

open Library

/-! ## Refusals -/

/-- The limits that refuse new clients. -/
structure ServerLoad where
  maxClients : Bool
  maxMemory : Bool
  maxUtilization : Bool
deriving DecidableEq, Repr

def ServerLoad.refuses (load : ServerLoad) : Bool :=
  load.maxClients || load.maxMemory || load.maxUtilization

/-- `server_low_resources_response` -/
def serverLowResourcesResponse (load : ServerLoad) : FixedResponse :=
  if load.maxClients then .maxClients
  else if load.maxMemory then .maxMemory
  else if load.maxUtilization then .maxUtilization
  else .unknown

/-- `address_compare` -/
def addressCompare (a b : Address) : Bool := a.inet6 == b.inet6 && a.addr == b.addr

/-! ## Connections -/

/-- A client as it is made for a listening socket: `ZERO_INIT` and the fields set before it is
appended. -/
def newClient (index : ℕ) (address : Address) (now : ℤ) (birth : ℕ) : Client :=
  { Client.zero with
    acceptingSocket := index
    address := address
    lastRequestComplete := now
    lastRequestStreamNotEmpty := now
    lastResponseStreamNotFull := now
    lastResponseComplete := now
    birth := birth }

/-- How the outside answers while a connection is accepted. -/
structure AcceptAnswers where
  /-- The descriptor `accept()` returned with the address of the peer, `none` if it failed -/
  accepted : Option (ℕ × Address)
  /-- Whether both `fcntl()` worked -/
  fcntl : Bool
  /-- How many bytes of a refusal `send()` took, `none` if it failed -/
  refusal : Option ℕ
  cryptography : InitializeAnswers
  polls : Option ℕ
  clients : Option ℕ

/-- Where `server_accept_connection` gives up: the descriptor is closed, the sizes are restored, and the
error is printed. -/
def acceptFailure (oldSize : ℕ) (opened : Bool) (birth : ℕ) (e : ExError) (s : Server) :
    Outcome Error Server Unit :=
  let s := if opened then s.emit (.closed birth) else s
  let s := { s with
    polls.elements := s.polls.elements.take (oldSize + acceptingSockets)
    clients.elements := s.clients.elements.take oldSize }
  if e.has partialEefDie then .error e.error s
  else if e.has partialEefLog then .ok () (s.emit (.errorPrinted e.error))
  else .ok () s

/-- `cryptography_initialize` for the sockets of HTTPS and Gemini. -/
def initializeClient (index : ℕ) (answers : InitializeAnswers) (client : Client) :
    Outcome ExError Client Unit :=
  if acceptingSocketIsHttps index || acceptingSocketIsGemini index then
    cryptographyInitialize answers client
  else .ok () { client with cryptographyState := .operational }

/-- `server_send_low_resources_connection`: encrypted sockets are not even closed. -/
def serverSendLowResourcesConnection (index birth : ℕ) (refusal : Option ℕ) (fixed : FixedResponse)
    (s : Server) : Server :=
  if acceptingSocketIsHttps index || acceptingSocketIsGemini index then s
  else
    let text := failsafeText index fixed
    let s := (s.emit (.refused (text.take (refusal.getD 0)))).emit (.closed birth)
    if refusal = some text.length then s else s.emit (.errorPrinted "send() failed")

/-- `server_accept_connection` -/
def serverAcceptConnection (index : ℕ) (load : ServerLoad) (now : ℤ) (answers : AcceptAnswers)
    (s : Server) : Outcome Error Server Unit :=
  let oldSize := s.clients.elements.length
  let birth := s.births
  match answers.accepted with
  | none => acceptFailure oldSize false birth (extend .closeLog "accept() failed") s
  | some (fd, address) =>
    let s := { s with births := birth + 1 }
    if ¬ answers.fcntl then acceptFailure oldSize true birth (extend .closeLog "fcntl() failed") s
    else if load.refuses then
      .ok () (serverSendLowResourcesConnection index birth answers.refusal
        (serverLowResourcesResponse load) s)
    else
      (initializeClient index answers.cryptography (newClient index address now birth)).handle
        (fun e _ => acceptFailure oldSize true birth e s) fun _ client =>
      (pollsAppend answers.polls ⟨some fd, .none, .none, birth⟩ s).handle
        (fun e s => acceptFailure oldSize true birth (extend .closeLog e) s) fun _ s =>
      (clientsAppend answers.clients client s).handle
        (fun e s => acceptFailure oldSize true birth (extend .closeLog e) s) fun _ s =>
      .ok () s

/-! ## Messages -/

/-- How the outside answers while a message is accepted. -/
structure AcceptMessageAnswers where
  /-- The bytes `recvfrom()` received, with the address they come from -/
  received : Except String (List UInt8 × Address)
  /-- The receive failed for want of a message. -/
  wouldBlock : Bool
  polls : Option ℕ
  clients : Option ℕ

/-- `g_short_request_message` after `recvfrom()`: later bytes are those of earlier messages. -/
def receiveMessage (bytes : List UInt8) (s : Server) : Server :=
  { s with shortRequestMessage := memcpy s.shortRequestMessage 0 bytes }

/-- The first client of Guppy with this address. -/
def findGuppy (address : Address) (clients : List Client) : Option ℕ :=
  clients.findIdx? fun client =>
    acceptingSocketIsGuppy client.acceptingSocket && addressCompare address client.address

/-- The message becomes the one of client `i`. -/
def ownMessage (i size : ℕ) (s : Server) : Server :=
  { s with shortRequestMessageOwner := some (s.pointer i), shortRequestMessageSize := size }

/-- The client that is made for a message. -/
def serverCreateMessageClient (index : ℕ) (address : Address) (size : ℕ) (now : ℤ)
    (answers : AcceptMessageAnswers) (s : Server) : Outcome Error Server Unit :=
  let oldSize := s.clients.elements.length
  let birth := s.births
  let client := { newClient index address now birth with cryptographyState := .operational }
  let restore (s : Server) : Server := { s with
    polls.elements := s.polls.elements.take (oldSize + acceptingSockets)
    clients.elements := s.clients.elements.take oldSize }
  let s := { s with births := birth + 1 }
  (pollsAppend answers.polls ⟨none, .none, ⟨true, false, false, false⟩, birth⟩ s).handle
    (fun e s => .error e (restore s)) fun _ s =>
  (clientsAppend answers.clients client s).handle (fun e s => .error e (restore s)) fun _ s =>
  .ok () (ownMessage (s.clients.elements.length - 1) size s)

/-- `server_accept_message` -/
def serverAcceptMessage (index : ℕ) (load : ServerLoad) (now : ℤ) (answers : AcceptMessageAnswers)
    (s : Server) : Outcome Error Server Unit :=
  match answers.received with
  | .error errno =>
    if answers.wouldBlock then .ok () s else .error s!"recvfrom() failed with {errno}" s
  | .ok (bytes, address) =>
    let received := bytes.take 2048
    let s := receiveMessage received s
    match findGuppy address s.clients.elements with
    | some i =>
      -- not a new client
      let s := ownMessage i received.length s
      let k := acceptingSockets + i
      .ok () (s.setPoll k { s.poll k with revents.pollIn := true })
    | none =>
      if received.length < guppyScheme.length ∨
          s.shortRequestMessage.take guppyScheme.length ≠ guppyScheme then
        -- rogue message, not worth creating a client
        .ok () (s.emit (.refused (ascii "4 No request\r\n")))
      else if load.refuses then
        .ok () (s.emit (.refused (processorFixedGuppyFailsafe (serverLowResourcesResponse load))))
      else serverCreateMessageClient index address received.length now answers s

/-! ## All listening sockets -/

/-- How the outside answers while one listening socket is served. -/
structure SocketAnswers where
  connection : AcceptAnswers
  message : AcceptMessageAnswers

/-- The body of the loop of `server_accept_traffic` for the listening socket `index`. -/
def serverAcceptSocket (load : ServerLoad) (now : ℤ) (answers : SocketAnswers) (index : ℕ)
    (s : Server) : Outcome Error Server Unit :=
  let revents := (s.poll index).revents
  if revents.pollErr || revents.pollHup then .error "listening socket failed" s
  else if ¬ revents.pollIn then .ok () s
  else if acceptingSocketIsConnection index then
    serverAcceptConnection index load now answers.connection s
  else if s.shortRequestMessageOwner = none then
    serverAcceptMessage index load now answers.message s
  else .ok () s

/-- The loop over the listening sockets. -/
def acceptSockets (load : ServerLoad) (now : ℤ) (answers : ℕ → SocketAnswers) :
    List ℕ → Server → Outcome Error Server Unit
  | [], s => .ok () s
  | index :: rest, s =>
    (serverAcceptSocket load now (answers index) index s).andThen fun _ s =>
      acceptSockets load now answers rest s

/-- `server_accept_traffic`: the memory and the processor are measured outside of the model. -/
def serverAcceptTraffic (maxMemory maxUtilization : Bool) (now : ℤ) (answers : ℕ → SocketAnswers)
    (s : Server) : Outcome Error Server Unit :=
  let load : ServerLoad := ⟨s.clients.elements.length ≥ maxClients, maxMemory, maxUtilization⟩
  acceptSockets load now answers (List.range acceptingSockets) s

end Twinkleshine
