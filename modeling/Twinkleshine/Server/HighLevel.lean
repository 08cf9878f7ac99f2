import Twinkleshine.Server.Accept

/-!
# Serving clients

Reference: `source/server/high_level.c`, `clients_shuffle` in `source/client.c`.

One visit of a client is a loop of rounds; one pass of the server visits all clients in random order.
-/

namespace Twinkleshine

open Library

/-! ## What makes sense -/

def getMakesSenseToReceive (s : Server) (i : ℕ) : Bool :=
  let client := s.client i
  client.cryptographyState ≠ .shutdown &&
    (client.progress.parser.state ≠ .end || acceptingSocketIsMessage client.acceptingSocket) &&
    clientResponseStreamSize s i < maxResponseStreamSize

def getMakesSenseToParse (s : Server) (i : ℕ) : Bool :=
  let client := s.client i
  client.cryptographyState = .operational &&
    client.progress.parser.state ≠ .end &&
    client.requestStream.size > client.progress.request.streamSize &&
    clientResponseStreamSize s i < maxResponseStreamSize

def getMakesSenseToSend (s : Server) (i : ℕ) : Bool := clientResponseStreamSize s i > 0

/-! ## Timeouts -/

/-- `INT_MAX` -/
def intMax : ℤ := 2 ^ 31 - 1

/-- `(int)` -/
def toInt (n : ℤ) : ℤ := n.bmod (2 ^ 32)

/-- `check_timeout`: without a `remaining` the timeout is checked, else `remaining` is lowered to it. -/
def checkTimeout (timeout now : ℤ) : Option ℤ → Except Error (Option ℤ)
  | none => if timeout ≥ now then .ok none else .error "timeout >= now"
  | some remaining =>
    let localRemaining := toInt (timeout - now)
    .ok (some (if localRemaining < remaining then localRemaining else remaining))

/-- The timeouts that apply to a client, in the order of `check_timeouts`, with the actions they name. -/
def clientTimeouts (s : Server) (i : ℕ) : List (ℤ × Eef) :=
  let client := s.client i
  (if client.responseStream.size > 0 then
    [(client.lastRequestComplete + maxIncompleteRequestTime,
      .sendShutdownLog .maxIncompleteRequestTime)] else []) ++
  (if client.requestStream.size = 0 then
    [(client.lastRequestStreamNotEmpty + maxEmptyRequestStreamTime, .shutdownLog)] else []) ++
  (if clientResponseStreamSize s i ≥ maxResponseStreamSize then
    [(client.lastResponseStreamNotFull + maxFullResponseStreamTime, .closeLog)] else []) ++
  (if clientResponseStreamSize s i > 0 then
    [(client.lastResponseComplete + maxIncompleteResponseTime, .closeLog)] else [])

/-- The calls of `check_timeout`, one after the other. -/
def checkAll (now : ℤ) : List (ℤ × Eef) → Option ℤ → Except ExError (Option ℤ)
  | [], remaining => .ok remaining
  | (timeout, eef) :: rest, remaining =>
    match checkTimeout timeout now remaining with
    | .error e => .error (extend eef e)
    | .ok remaining => checkAll now rest remaining

/-- `check_timeouts` -/
def checkTimeouts (s : Server) (i : ℕ) (now : ℤ) (remaining : Option ℤ) :
    Except ExError (Option ℤ) :=
  checkAll now (clientTimeouts s i) remaining

/-! ## Recovery of encrypted connections -/

/-- `processor_fixed`, which does the same in all protocols. -/
def processorFixed (acceptingSocket fixed : ℕ) (realloc : Realloc) (responseQueue : Ring) :
    Outcome ExError Ring (Response × ConstantValue) :=
  let text := processorFixedFailsafe acceptingSocket fixed
  (processorConstructResponse responseQueue realloc text.length false 0 0 ⟨[], []⟩ ⟨[], []⟩
    ⟨[], []⟩).andThen fun response queue => .ok (response, ⟨text, []⟩) queue

/-- The answers to what `server_process_client_round_recovery` asks. -/
structure RecoveryAnswers where
  fixed : Realloc
  encrypt : EncryptAnswers
  finalize : ShutdownAnswers

/-- `server_process_client_round_recovery` -/
def serverProcessClientRoundRecovery (fixed : ℕ) (answers : RecoveryAnswers) (client : Client) :
    Outcome ExError Client Unit :=
  ((processorFixed client.acceptingSocket fixed answers.fixed client.responseQueue).mapState
    fun queue => { client with responseQueue := queue }).andThen fun (response, _) client =>
  let client := if client.responseCount = 0 then { client with response := response } else client
  (cryptographyEncrypt answers.encrypt response client).andThen fun _ client =>
  let client := { client with responseCount := client.responseCount + 1 }
  cryptographyFinalize answers.finalize client

/-! ## The blocks of a round -/

/-- The poll a client is served with: message-based clients share the one of their listening socket. -/
def pollIndex (s : Server) (i : ℕ) : ℕ :=
  let client := s.client i
  if acceptingSocketIsConnection client.acceptingSocket then acceptingSockets + i
  else client.acceptingSocket

/-- A list of conditions with their texts, each of which is an error to close the connection for. -/
def assertAll : List (Bool × String) → Visit → Outcome ExError Visit Unit
  | [], v => .ok () v
  | (check, text) :: rest, v =>
    if check then assertAll rest v else .error ⟨text, .closeLog⟩ v

/-- The end of a client that is served. -/
def finalizeClient (i : ℕ) (s : Server) : Server :=
  let s :=
    if acceptingSocketIsConnection (s.client i).acceptingSocket then pollFinalize (pollIndex s i) s
    else s
  clientFinalize i s

/-- Check if connection failed, or should be terminated -/
def roundFirst (i : ℕ) (now : ℤ) (v : Visit) : Outcome ExError Visit Unit :=
  if v.first then
    let v := { v with first := false }
    let revents := (v.server.poll (pollIndex v.server i)).revents
    if revents.pollErr || revents.pollHup then .error ⟨"Connection failed", .closeLog⟩ v
    else
      match checkTimeouts v.server i now none with
      | .error e => .error e v
      | .ok _ => .ok () v
  else .ok () v

/-- Client terminated connection or initiated TLS shutdown or completed TLS shutdown -/
def clientTerminated (i : ℕ) (v : Visit) : Bool :=
  let client := v.server.client i
  v.flags.closed ||
    (client.cryptographyState = .pendingShutdown && clientResponseStreamSize v.server i = 0) ||
    client.cryptographyState = .shutdown

/-- What must be empty when the client terminates. -/
def clientTerminatedChecks (i : ℕ) (s : Server) : List (Bool × String) :=
  let client := s.client i
  [(client.requestStream.size = 0, "client->request_stream.size == 0"),
    (client.progress.parser.state = .begin || client.progress.parser.state = .end,
      "client->parser.state == 0 || client->parser.state == RPS_END"),
    (clientResponseStreamSize s i = 0, "client_response_stream_size(client) == 0"),
    (client.responseQueue.size = 0, "client->response_queue.size == 0"),
    (client.responseCount = 0, "client->response_count == 0")]

/-- The block that receives; the value is whether the client is finalized. -/
def roundReceive (i : ℕ) (now : ℤ) (answers : ReceiveTrafficAnswers) (v : Visit) :
    Outcome ExError Visit Bool :=
  if v.flags.exhausted = false ∧ v.flags.closed = false ∧
      getMakesSenseToReceive v.server i = true then
    (serverReceiveTraffic i now answers { v with doneSomething := true }).andThen fun _ v =>
    if clientTerminated i v then
      (assertAll (clientTerminatedChecks i v.server) v).andThen fun _ v =>
      .ok true { v with server := finalizeClient i v.server }
    else .ok false v
  else .ok false v

/-- The block that parses and processes. -/
def roundParse (i : ℕ) (now : ℤ) (answers : ProcessAnswers) (shutdown : ShutdownAnswers) (v : Visit) :
    Outcome ExError Visit Unit :=
  if getMakesSenseToParse v.server i then
    (({ v with doneSomething := true } : Visit).onServer (serverProcessTraffic i now answers)).andThen
      fun _ v =>
    let client := v.server.client i
    if client.ssl ∧ client.progress.parser.state = .end then
      -- server should shutdown connection
      v.onServer fun s => s.onClient i (cryptographyFinalize shutdown)
    else .ok () v
  else .ok () v

/-- Server should close connection -/
def serverTerminates (i : ℕ) (s : Server) : Bool :=
  let client := s.client i
  (client.ssl = false && client.progress.parser.state = .end && clientResponseStreamSize s i = 0) ||
    (client.ssl && client.cryptographyState = .shutdown && clientResponseStreamSize s i = 0)

/-- What must be empty when the server closes the connection. -/
def serverTerminatesChecks (i : ℕ) (s : Server) : List (Bool × String) :=
  let client := s.client i
  [(client.requestStream.size = 0, "client->request_stream.size == 0"),
    (client.responseQueue.size = 0, "client->response_queue.size == 0"),
    (client.responseCount = 0, "client->response_count == 0")]

/-- The block that sends. -/
def roundSend (i : ℕ) (now : ℤ) (answers : SendAnswers) (v : Visit) : Outcome ExError Visit Unit :=
  if v.flags.saturated = false ∧ getMakesSenseToSend v.server i = true then
    (serverSendTraffic i now answers { v with doneSomething := true }).andThen fun _ v =>
    if serverTerminates i v.server then
      (assertAll (serverTerminatesChecks i v.server) v).andThen fun _ v =>
      .ok () { v with server := finalizeClient i v.server }
    else .ok () v
  else .ok () v

/-! ## Rounds -/

/-- What the outside decides in a round. -/
structure RoundAnswers where
  receive : ReceiveTrafficAnswers
  process : ProcessAnswers
  shutdown : ShutdownAnswers
  send : SendAnswers
  recovery : RecoveryAnswers

/-- The blocks of `server_process_client_round`, up to its label `failure`. -/
def roundBlocks (i : ℕ) (now : ℤ) (answers : RoundAnswers) (v : Visit) :
    Outcome ExError Visit Unit :=
  (roundFirst i now v).andThen fun _ v =>
  (roundReceive i now answers.receive v).andThen fun finalized v =>
  if finalized then .ok () v
  else
    (roundParse i now answers.process answers.shutdown v).andThen fun _ v =>
    roundSend i now answers.send v

/-- Recoverable error, perform shutdown instead of close -/
def roundRecovers (i : ℕ) (e : ExError) (s : Server) : Bool :=
  (s.client i).ssl && (s.client i).cryptographyState ≠ .pendingShutdown && e.has partialEefShutdown

/-- `server_process_client_round` -/
def serverProcessClientRound (i : ℕ) (now : ℤ) (answers : RoundAnswers) (v : Visit) :
    Outcome ExError Visit Unit :=
  (roundBlocks i now answers v).handle
    (fun e v =>
      if roundRecovers i e v.server then
        let v := { v with
          doneSomething := true
          server := v.server.emit (.errorPrinted e.error) }
        v.onServer fun s => s.onClient i
          (serverProcessClientRoundRecovery e.fixedResponse answers.recovery)
      else .error e v)
    fun _ v => .ok () v

/-! ## Visits -/

/-- The part of the label `failure` of `server_process_client` that sends a fixed text: `send()` takes
`taken` bytes of it. -/
def sendFixed (i taken : ℕ) (e : ExError) (s : Server) : Server :=
  let client := s.client i
  if e.has partialEefSend ∧ client.ssl = false then
    let text := processorFixedFailsafe client.acceptingSocket e.fixedResponse
    if acceptingSocketIsConnection client.acceptingSocket then
      s.emit (.sentFixed (s.poll (pollIndex s i)).birth (text.take taken))
    else s.emit (.sentFixed client.birth text)
  else s

/-- The actions of the label `failure` of `server_process_client`; the server dies when this fails. -/
def failureActions (i taken : ℕ) (e : ExError) (s : Server) : Outcome Error Server Unit :=
  let s := sendFixed i taken e s
  -- not intercepted? too bad
  let s := if e.has partialEefShutdown then finalizeClient i s else s
  let s := if e.has partialEefClose then finalizeClient i s else s
  let s := if e.has partialEefLog then s.emit (.errorPrinted e.error) else s
  if e.has partialEefDie then .error e.error s else .ok () s

/-- `events` of a client there is nothing to do for. -/
def waitEvents (i : ℕ) (s : Server) : PollEvents :=
  ⟨getMakesSenseToReceive s i, getMakesSenseToSend s i, true, true⟩

/-- Nothing to do, prepare to wait: what is polled for, and how long. -/
def prepareToWait (i : ℕ) (now remaining : ℤ) (s : Server) : Server × ℤ :=
  let poll := s.poll (pollIndex s i)
  let (s, remaining) :=
    if acceptingSocketIsConnection (s.client i).acceptingSocket then
      (s.setPoll (pollIndex s i) { poll with events := waitEvents i s }, remaining)
    else
      (s, if getMakesSenseToSend s i ∧ remaining > chunkSendRepeatTime then chunkSendRepeatTime
        else remaining)
  match checkTimeouts s i now (some remaining) with
  | .ok (some remaining) => (s, remaining)
  | _ => (s, remaining)

/-- What the outside decides during a visit: round by round, and how much of a fixed text is taken. -/
structure VisitAnswers where
  rounds : ℕ → RoundAnswers
  taken : ℕ

/-- The loop of `server_process_client` from round `k` on; the value is `remaining`. -/
def serverProcessClientLoop (i : ℕ) (now remaining : ℤ) (answers : VisitAnswers) :
    (fuel k : ℕ) → Visit → Outcome Error Server ℤ
  | 0, _, _ => .hang
  | fuel + 1, k, v =>
    (serverProcessClientRound i now (answers.rounds k) { v with doneSomething := false }).handle
      (fun e v => (failureActions i answers.taken e v.server).andThen fun _ s => .ok remaining s)
      fun _ v =>
        if v.doneSomething then
          serverProcessClientLoop i now remaining answers fuel (k + 1) v
        else
          let (s, remaining) := prepareToWait i now remaining v.server
          .ok remaining s

/-- The flags a visit starts with: what was polled for and did not happen. -/
def startFlags (i : ℕ) (s : Server) : ConnectionFlags :=
  let poll := s.poll (pollIndex s i)
  { saturated := acceptingSocketIsConnection (s.client i).acceptingSocket &&
      poll.events.pollOut && !poll.revents.pollOut
    exhausted := poll.events.pollIn && !poll.revents.pollIn
    closed := false }

def startVisit (i : ℕ) (s : Server) : Visit := ⟨s, startFlags i s, true, false⟩

/-- `server_process_client` with at most `fuel` rounds. -/
def serverProcessClient (i : ℕ) (now remaining : ℤ) (answers : VisitAnswers) (fuel : ℕ)
    (s : Server) : Outcome Error Server ℤ :=
  serverProcessClientLoop i now remaining answers fuel 0 (startVisit i s)

/-! ## Passes -/

/-- The swaps of `clients_shuffle`: `random_rand(i + 1)` answers `choices i`. -/
def shuffleLoop (choices : ℕ → ℕ) : ℕ → List ℕ → List ℕ
  | 0, indices => indices
  | i + 1, indices =>
    let j := choices (i + 1) % (i + 2)
    let shuffleIndex := indices.getD (i + 1) 0
    let indices := indices.set (i + 1) (indices.getD j 0)
    shuffleLoop choices i (indices.set j shuffleIndex)

/-- The shuffle indices `clients_shuffle` gives to `size` clients. -/
def shuffledIndices (choices : ℕ → ℕ) (size : ℕ) : List ℕ :=
  shuffleLoop choices (size - 1) (List.range size)

/-- `clients_shuffle` -/
def clientsShuffle (choices : ℕ → ℕ) (s : Server) : Server :=
  let clients := s.clients.elements
  let shuffled := List.zipWith (fun client shuffleIndex => { client with shuffleIndex := shuffleIndex })
    clients (shuffledIndices choices clients.length)
  { s with clients.elements := shuffled }

/-- What the outside decides during a pass. -/
structure PassAnswers where
  revents : ℕ → PollEvents
  now : ℤ
  maxMemory : Bool
  maxUtilization : Bool
  sockets : ℕ → SocketAnswers
  choices : ℕ → ℕ
  visits : ℕ → VisitAnswers
  /-- How many rounds each visit may take -/
  fuel : ℕ

/-- The loop over the clients; each says by its shuffle index which one is visited. -/
def visitClients (now : ℤ) (visits : ℕ → VisitAnswers) (fuel : ℕ) :
    List ℕ → ℤ → Server → Outcome Error Server ℤ
  | [], remaining, s => .ok remaining s
  | place :: rest, remaining, s =>
    let i := (s.client place).shuffleIndex
    (serverProcessClient i now remaining (visits place) fuel s).andThen fun remaining s =>
      visitClients now visits fuel rest remaining s

/-- `poll()` sets the events that happened. -/
def pollAll (revents : ℕ → PollEvents) (s : Server) : Server :=
  let polls := s.polls.elements.mapIdx fun k poll => { poll with revents := revents k }
  { s with polls.elements := polls }

/-- `server_process_clients`: the value is how long the next pass may wait. -/
def serverProcessClients (answers : PassAnswers) (s : Server) : Outcome Error Server ℤ :=
  -- accept new connections
  (serverAcceptTraffic answers.maxMemory answers.maxUtilization answers.now answers.sockets
    (pollAll answers.revents s)).andThen fun _ s =>
  -- process events
  let s := clientsShuffle answers.choices s
  (visitClients answers.now answers.visits answers.fuel (List.range s.clients.elements.length) intMax
    s).andThen fun remaining s =>
  .ok remaining (clientsRemoveFinalized s)

end Twinkleshine
