import Twinkleshine.Server.Invariant

/-!
# What processing a request does

The response to a request of a client that is not encrypted is generated for it, joins its books, and is
pending after everything else it has pending. Reference: `source/server/process.c`.
-/

namespace Twinkleshine

open Library

/-! ## The blocks -/

/-- A client that is not encrypted and can be served. After the last request its parser stays at the
end. -/
structure Client.Plain (client : Client) : Prop where
  operational : client.cryptographyState = .operational
  ssl : client.ssl = false
  requests : client.requestStream.Valid
  parse : client.progress.parser.state ≠ .end →
    ParseInv client.acceptingSocket client.requestStream.size client.progress
  stream : client.responseStream.Valid

section

variable {client : Client}

/-- Parsing changes the progress of a client. -/
theorem parseRequest_meets (h : Session.Inv client.acceptingSocket
    ⟨client.requestStream, client.progress⟩) :
    (parseRequest client).Meets True
      (fun _ d => ∃ progress, d = { client with progress := progress } ∧
        ParseInv client.acceptingSocket client.requestStream.size progress)
      fun e d => (∃ progress, d = { client with progress := progress }) ∧
        (IsParserError e ∨ e.eef = .sendShutdownLog .maxRequestHeaderSize) := by
  refine ((h.parse_ensures.meets True).mapState _).mono ?_ ?_
  · rintro _ _ ⟨progress, rfl, hparse⟩
    exact ⟨progress, rfl, hparse⟩
  · rintro e _ ⟨progress, rfl, he⟩
    exact ⟨⟨progress, rfl⟩, he⟩

/-- The words of a complete request are found. -/
theorem Client.Plain.found (h : client.Plain)
    (hparse : ParseInv client.acceptingSocket client.requestStream.size client.progress)
    (hend : client.progress.parser.state = .end) :
    ∃ method resource protocol, RequestFound (ringLookup client.requestStream)
      client.progress.request method resource protocol := by
  obtain ⟨method, resource, protocol, hfound, -⟩ := (hparse.inside hend).found
    (ringLookup_reads h.requests.toSound h.requests.size_lt)
    (hparse.streamSize_le.trans_eq h.requests.length_content.symm) hparse.streamSize_le_max
  exact ⟨method, resource, protocol, hfound⟩

/-- The request is taken out, and its response is the current one if there is no other. -/
theorem takeRequest_ok (h : client.requestStream.Valid)
    (hle : client.progress.request.streamSize ≤ client.requestStream.size) (response : Response) :
    ∃ stream, takeRequest response client = .ok () { client with
        requestStream := stream
        response := if client.responseCount = 0 then response else client.response } ∧
      stream.Valid ∧ stream.size
        = client.requestStream.size - client.progress.request.streamSize := by
  obtain ⟨_, stream, hpop, hvalid, -, hsize, -⟩ :=
    ((ringPop_spec h client.progress.request.streamSize).mono (fun _ _ hr => hr)
      fun _ _ hr => absurd hle (Nat.not_le.mpr hr.2)).exists_ok
  refine ⟨stream, ?_, hvalid, hsize⟩
  rw [takeRequest, hpop]
  simp only [Outcome.mapError_ok, Outcome.mapState_ok, Outcome.andThen_ok]
  split_ifs <;> rfl

/-- A client that is not encrypted is reset, or stays at the end. -/
theorem resetParser_ok (hssl : client.ssl = false) (answers : ShutdownAnswers) :
    resetParser answers client = .ok () { client with
      progress := if client.response.keepAlive then .zero else client.progress } := by
  unfold resetParser
  by_cases hkeep : client.response.keepAlive = true
  · rw [if_pos hkeep, if_pos hkeep]
  · rw [if_neg hkeep, if_neg (by simp [hssl]), if_neg hkeep]

end

section

variable {s : Server} {i : ℕ}

/-- A response is generated into the internal buffers, and its entry into the queue. -/
theorem generateResponse_meets {method resource protocol : ConstantValue}
    (hqueue : (s.client i).responseQueue.Valid)
    (hfound : RequestFound (ringLookup (s.client i).requestStream) (s.client i).progress.request
      method resource protocol) (env : ProcessorEnvironment) :
    (generateResponse i env s).Meets True
      (fun result t => ∃ buffers queue keepAlive,
        t = { s.setClient i { s.client i with responseQueue := queue } with buffers := buffers } ∧
        Responded ⟨s.buffers, (s.client i).responseQueue⟩ ⟨buffers, queue⟩ method.bytes
          resource.bytes protocol.bytes keepAlive result.1 result.2)
      fun e t => (∃ buffers, t = { s with buffers := buffers }) ∧ IsProcessorError e := by
  have hprocess : (processorProcess (s.client i).acceptingSocket (s.client i).progress.request
      (ringLookup (s.client i).requestStream) env ⟨s.buffers, (s.client i).responseQueue⟩).Meets
        True _ _ := (processorProcess_meets hfound hqueue).of_imp fun _ => trivial
  refine (hprocess.mapState _).mono ?_ ?_
  · rintro result _ ⟨t, rfl, hresponded⟩
    exact ⟨t.buffers, t.responseQueue, _, rfl, hresponded⟩
  · rintro e _ ⟨t, rfl, he, hsame⟩
    refine ⟨⟨t.buffers, ?_⟩, he⟩
    rw [hsame]
    exact congrArg (fun u : Server => { u with buffers := t.buffers }) (s.setClient_client i)

/-- The response goes behind what is in the response stream, or into the short one. -/
theorem storeResponse_meets (hssl : (s.client i).ssl = false)
    (hstream : (s.client i).responseStream.Valid) (answers : ProcessAnswers) (response : Response)
    (stream : TextValue) :
    (storeResponse i answers response stream s).Meets True
      (fun _ t =>
        ((s.client i).responseStream.size > 0 ∧ ∃ ring : Ring, ring.Valid ∧
          ringContent ring
            = ringContent (s.client i).responseStream ++ (stream.read s.buffers).bytes ∧
          t = s.setClient i { s.client i with responseStream := ring }) ∨
        ((s.client i).responseStream.size = 0 ∧ t = { s with
          shortResponseStream := stream
          shortResponseStreamOwner := some (s.pointer i) }))
      fun e t => t = s ∧ e.eef = .closeLog := by
  unfold storeResponse
  rw [if_neg (by simp [hssl])]
  by_cases hsize : (s.client i).responseStream.size > 0
  · rw [if_pos hsize]
    have hpush := serverReservePushValue_meets hstream answers.store (stream.read s.buffers)
    refine ((hpush.mapState _).mapState _).mono ?_ ?_
    · rintro _ _ ⟨_, rfl, ring, rfl, hvalid, hcontent⟩
      exact .inl ⟨hsize, ring, hvalid, hcontent, rfl⟩
    · rintro e _ ⟨_, rfl, ring, rfl, rfl, he⟩
      exact ⟨s.setClient_client i, he⟩
  · rw [if_neg hsize]
    exact Or.inr ⟨Nat.eq_zero_of_not_pos hsize, rfl⟩

end

/-! ## A whole request -/

/-- The times that were noted of a client are the same. -/
structure Client.SameTimes (c d : Client) : Prop where
  lastRequestComplete : d.lastRequestComplete = c.lastRequestComplete
  lastRequestStreamNotEmpty : d.lastRequestStreamNotEmpty = c.lastRequestStreamNotEmpty
  lastResponseStreamNotFull : d.lastResponseStreamNotFull = c.lastResponseStreamNotFull
  lastResponseComplete : d.lastResponseComplete = c.lastResponseComplete

/-- A request of client `i` was answered: the response is pending behind what was pending, and in the
books. -/
structure Answered (i : ℕ) (s t : Server) : Prop where
  spares : Spares i s t
  owner : t.OwnerInv
  plain : (t.client i).Plain
  times : (s.client i).SameTimes (t.client i)
  shorter : (t.client i).requestStream.size
    = (s.client i).requestStream.size - (s.client i).progress.request.streamSize
  response : ∃ response : Generated, t.pending i = s.pending i ++ response.text ∧
    t.effects = s.effects ++ [.generated (s.client i).birth response.method response.resource
      response.text] ∧
    Ledger (t.client i) (t.pending i) (history (s.client i).birth t.effects)

/-- A request of client `i` was not answered. When the error is one to send a fixed response for, nothing
was generated and the books are right. -/
structure NotAnswered (i : ℕ) (s t : Server) (e : ExError) : Prop where
  spares : Spares i s t
  owner : t.OwnerInv
  told : ∃ more, t.effects = s.effects ++ more ∧ (more = [] ∨ ∃ response : Generated, more =
    [.generated (s.client i).birth response.method response.resource response.text])
  ledger : e.has partialEefSend = true →
    t.effects = s.effects ∧ t.pending i = s.pending i ∧ SameBooks (s.client i) (t.client i)

/-- Errors that close the connection do not end the server. -/
theorem ExError.not_has_die {e : ExError} (h : e.eef = .closeLog) : e.has partialEefDie = false := by
  rw [← Bool.not_eq_true, e.has_die_iff, h]
  simp

/-- Errors that close the connection do not send anything. -/
theorem ExError.not_has_send {e : ExError} (h : e.eef = .closeLog ∨ e.eef = .closeLogDie ∨ e.eef = .die) :
    e.has partialEefSend = false := by
  rw [ExError.has, ExError.flags]
  rcases h with h | h | h <;> rw [h] <;> decide

section

variable {s : Server} {i : ℕ}

/-- A changed buffer matters to nobody when the short response stream has no owner. -/
theorem Server.pending_buffers (hnone : s.shortResponseStreamOwner = none)
    (buffers : InternalBuffers) (j : ℕ) :
    ({ s with buffers := buffers } : Server).pending j = s.pending j := by
  have hnone' : ({ s with buffers := buffers } : Server).shortResponseStreamOwner = none := hnone
  rw [Server.pending_of_not_owns (Server.owns_of_none hnone j),
    Server.pending_of_not_owns (Server.owns_of_none hnone' j)]
  rfl

theorem Spares.buffers (hnone : s.shortResponseStreamOwner = none) (buffers : InternalBuffers) :
    Spares i s { s with buffers := buffers } :=
  ⟨rfl, rfl, rfl, rfl, .refl _, fun _ _ => .inl rfl, fun j _ => Server.pending_buffers hnone buffers j,
    ⟨[], (List.append_nil _).symm, fun _ h => absurd h List.not_mem_nil⟩⟩

theorem Client.MovedStream.sameTimes {c d : Client} (h : c.MovedStream d) : c.SameTimes d := by
  rcases h with rfl | ⟨stream, -, rfl⟩ <;> exact ⟨rfl, rfl, rfl, rfl⟩

theorem Client.MovedStream.request {c d : Client} (h : c.MovedStream d) :
    d.requestStream = c.requestStream ∧ d.progress = c.progress := by
  rcases h with rfl | ⟨stream, -, rfl⟩ <;> exact ⟨rfl, rfl⟩

theorem Client.MovedStream.plain {c d : Client} (h : c.MovedStream d) (hc : c.Plain) : d.Plain := by
  rcases h with rfl | ⟨stream, hvalid, rfl⟩
  · exact hc
  · exact ⟨hc.operational, hc.ssl, hc.requests, hc.parse, hvalid⟩

/-- The effect of generating a response names the words of its request. -/
theorem requestLog_eq {client : Client} {method resource protocol : ConstantValue}
    (h : RequestFound (ringLookup client.requestStream) client.progress.request method resource
      protocol) (text : List UInt8) :
    requestLog client text = .generated client.birth method.bytes resource.bytes text := by
  simp only [requestLog, h.method_eq, h.resource_eq]

/-- A state on the way to an answer: client `i` is `client`, what is pending for it is what was, nobody has
the short response stream, and `told` was told. -/
structure OnTheWay (i : ℕ) (s t : Server) (client : Client) (buffers : InternalBuffers)
    (told : List Effect) : Prop where
  spares : Spares i s t
  nobody : t.shortResponseStreamOwner = none
  client_eq : t.client i = client
  buffers_eq : t.buffers = buffers
  effects : t.effects = s.effects ++ told
  pending : t.pending i = s.pending i

theorem Flushed.onTheWay {t : Server} (h : Flushed s t) (i : ℕ) :
    OnTheWay i s t (t.client i) t.buffers [] :=
  ⟨h.spares i, h.owner, rfl, rfl, h.effects.trans (List.append_nil _).symm, h.pending i⟩

section

variable {t : Server} {client : Client} {buffers : InternalBuffers} {told : List Effect}

/-- The client is written, but not its response stream. -/
theorem OnTheWay.write (h : OnTheWay i s t client buffers told) (hi : i < s.clients.elements.length)
    {d : Client} (hsame : client.SameIdentity d) (hstream : d.responseStream = client.responseStream) :
    OnTheWay i s (t.setClient i d) d buffers told := by
  have hlt : i < t.clients.elements.length := h.spares.length ▸ hi
  have hclient : (t.setClient i d).client i = d := Server.client_setClient hlt d
  have hnone : (t.setClient i d).shortResponseStreamOwner = none := h.nobody
  refine ⟨h.spares.trans (.setClient hlt (h.client_eq ▸ hsame)), hnone, hclient, h.buffers_eq, h.effects, ?_⟩
  rw [← h.pending, Server.pending_of_not_owns (Server.owns_of_none h.nobody i),
    Server.pending_of_not_owns (Server.owns_of_none hnone i), hclient, hstream, h.client_eq]

/-- The processor has written its buffers. -/
theorem OnTheWay.process (h : OnTheWay i s t client buffers told) (buffers' : InternalBuffers) :
    OnTheWay i s { t with buffers := buffers' } client buffers' told :=
  ⟨h.spares.trans (.buffers h.nobody buffers'), h.nobody, h.client_eq, rfl, h.effects,
    (Server.pending_buffers h.nobody buffers' i).trans h.pending⟩

/-- Something is told about the client. -/
theorem OnTheWay.tell (h : OnTheWay i s t client buffers told) (effect : Effect)
    (heffect : effect.birth = some (s.client i).birth) :
    OnTheWay i s (t.emit effect) client buffers (told ++ [effect]) where
  spares := h.spares.trans (.emit (h.spares.self.birth ▸ heffect))
  nobody := h.nobody
  client_eq := h.client_eq
  buffers_eq := h.buffers_eq
  effects := by
    rw [← List.append_assoc, ← h.effects]
    rfl
  pending := h.pending

end

/-- The state in which a response was stored: it is pending for client `i`, and only its count and the
parser are left to be written. -/
structure Stored (i : ℕ) (s t : Server) (client : Client) (text : List UInt8) (effect : Effect) :
    Prop where
  spares : Spares i s t
  client_eq : ∃ stream : Ring, stream.Valid ∧ t.client i = { client with responseStream := stream }
  pending : t.pending i = s.pending i ++ text
  effects : t.effects = s.effects ++ [effect]
  owner : t.shortResponseStreamOwner = none ∨
    t.shortResponseStreamOwner = some (t.pointer i) ∧ (t.client i).responseStream.size = 0 ∧
      valueSize (t.shortResponseStream.read t.buffers) = t.shortResponseStream.size

/-- What is stored stands behind what is pending, in the stream of the client or in the short one. -/
theorem OnTheWay.stored {t : Server} {client : Client} {buffers : InternalBuffers} {effect : Effect}
    (h : OnTheWay i s t client buffers [effect]) (hi : i < s.clients.elements.length)
    (hssl : client.ssl = false) (hvalid : client.responseStream.Valid) {stream : TextValue}
    (hreadable : valueSize (stream.read buffers) = stream.size) (answers : ProcessAnswers)
    (response : Response) :
    (storeResponse i answers response stream t).Meets True
      (fun _ u => Stored i s u client (stream.read buffers).bytes effect)
      fun e u => OnTheWay i s u client buffers [effect] ∧ e.eef = .closeLog := by
  obtain ⟨hspares, hnone, rfl, rfl, heffects, hpending⟩ := h
  have hlt : i < t.clients.elements.length := hspares.length ▸ hi
  refine (storeResponse_meets hssl hvalid answers response stream).mono (fun _ u hu => ?_) ?_
  swap
  · rintro e _ ⟨rfl, he⟩
    exact ⟨⟨hspares, hnone, rfl, rfl, heffects, hpending⟩, he⟩
  rcases hu with ⟨-, ring, hring, hcontent, rfl⟩ | ⟨hzero, rfl⟩
  · -- behind what is in the stream of the client
    have hclient := Server.client_setClient hlt { t.client i with responseStream := ring }
    have hwritten : Spares i t (t.setClient i { t.client i with responseStream := ring }) :=
      .setClient hlt ⟨rfl, rfl, rfl, rfl, rfl⟩
    refine ⟨hspares.trans hwritten, ⟨ring, hring, hclient⟩, ?_, heffects, .inl hnone⟩
    rw [← hpending, Server.pending_of_not_owns (Server.owns_of_none hnone i),
      Server.pending_of_not_owns (Server.owns_of_none (s := t.setClient i _) hnone i), hclient, hcontent]
  · -- in the short stream, and nothing is pending in that of the client
    set u : Server := { t with shortResponseStream := stream, shortResponseStreamOwner := some (t.pointer i) }
    have howns : u.owns i = true := Server.owns_iff.mpr rfl
    have hnothing : ringContent (t.client i).responseStream = [] :=
      List.eq_nil_of_length_eq_zero (hvalid.length_content.trans hzero)
    have hwritten : Spares i t u := Spares.short (fun j _ => Server.owns_of_none hnone j) (.inr rfl)
    refine ⟨hspares.trans hwritten, ⟨_, hvalid, rfl⟩, ?_, heffects, .inr ⟨rfl, hzero, hreadable⟩⟩
    have hclient : u.client i = t.client i := rfl
    rw [← hpending, Server.pending, Server.shortPending, if_pos howns, hclient, hnothing,
      Server.pending_of_not_owns (Server.owns_of_none hnone i), hnothing, List.append_nil]
    rfl

/-- The count and the parser are written last. -/
theorem Stored.finish {t : Server} {client d : Client} {text : List UInt8} {effect : Effect}
    (h : Stored i s t client text effect) (hi : i < s.clients.elements.length)
    (hlive : (s.client i).dead = false) (hencrypted : (s.client i).encrypted = false)
    (hsame : (t.client i).SameIdentity d)
    (hstream : d.responseStream = (t.client i).responseStream) :
    Spares i s (t.setClient i d) ∧ (t.setClient i d).OwnerInv ∧
      (t.setClient i d).pending i = s.pending i ++ text := by
  have hlt : i < t.clients.elements.length := h.spares.length ▸ hi
  have hclient : (t.setClient i d).client i = d := Server.client_setClient hlt d
  refine ⟨h.spares.trans (.setClient hlt hsame), ?_, ?_⟩
  · rcases h.owner with hnone | ⟨howner, hsize, hread⟩
    · exact .inl hnone
    · have hidentity := h.spares.self.trans hsame
      obtain ⟨stream, hvalid, heq⟩ := h.client_eq
      refine .inr ⟨i, howner, by simpa using hlt, ?_, ?_, ?_, ?_, hread⟩
      · rw [hclient, hidentity.dead, hlive]
      · rw [hclient, hidentity.encrypted_eq, hencrypted]
      · rw [hclient, hstream, heq]
        exact hvalid
      · rw [hclient, hstream, hsize]
  · rw [← h.pending, Server.pending, Server.pending, hclient, hstream]
    rfl

/-- A request is answered when its response is stored, the client can be served again, and its books are
right. -/
theorem Stored.answered {t : Server} {client d : Client} {answer : Generated}
    (h : Stored i s t client answer.text
      (.generated (s.client i).birth answer.method answer.resource answer.text))
    (hi : i < s.clients.elements.length) (hlive : (s.client i).dead = false)
    (hencrypted : (s.client i).encrypted = false) (hsame : (t.client i).SameIdentity d)
    (hstream : d.responseStream = (t.client i).responseStream) (hplain : d.Plain)
    (htimes : (s.client i).SameTimes d)
    (hshorter : d.requestStream.size
      = (s.client i).requestStream.size - (s.client i).progress.request.streamSize)
    (hledger : Ledger d (s.pending i ++ answer.text) (history (s.client i).birth s.effects
      ++ [.generated (s.client i).birth answer.method answer.resource answer.text])) :
    Answered i s (t.setClient i d) ∧ (t.setClient i d).client i = d := by
  obtain ⟨hspares, howner, hpending⟩ := h.finish hi hlive hencrypted hsame hstream
  have hclient : (t.setClient i d).client i = d := Server.client_setClient (h.spares.length ▸ hi) d
  have hown : history (s.client i).birth
        [.generated (s.client i).birth answer.method answer.resource answer.text]
      = [.generated (s.client i).birth answer.method answer.resource answer.text] :=
    history_of_own fun effect heffect => List.mem_singleton.mp heffect ▸ rfl
  refine ⟨⟨hspares, howner, hclient.symm ▸ hplain, hclient.symm ▸ htimes, hclient.symm ▸ hshorter,
    ⟨answer, hpending, h.effects, ?_⟩⟩, hclient⟩
  rw [hclient, hpending, Server.effects_setClient, h.effects, history_append, hown]
  exact hledger

/-- The response that was generated joins the books. -/
theorem Ledger.respond {c d : Client} {pending : List UInt8} {effects : List Effect} {queue queue' : Ring}
    {buffers buffers' : InternalBuffers} {method resource protocol : List UInt8} {keepAlive : Bool}
    {response : Response} {stream : TextValue} (h : Ledger c pending effects)
    (hresponded : Responded ⟨buffers, queue⟩ ⟨buffers', queue'⟩ method resource protocol keepAlive response
      stream) (hqueue : queue = c.responseQueue) (hqueue' : d.responseQueue = queue')
    (hresponse : d.response = if c.responseCount = 0 then response else c.response)
    (hcount : d.responseCount = c.responseCount + 1) (hsocket : d.acceptingSocket = c.acceptingSocket)
    (birth : ℕ) :
    Ledger d (pending ++ (stream.read buffers').bytes)
      (effects ++ [.generated birth method resource (stream.read buffers').bytes]) := by
  subst hqueue hqueue'
  obtain ⟨entry, hwell, rfl, hmethod, hresource, -, hcontent⟩ := hresponded.entry
  have haccounts : entry.AccountsFor ⟨method, resource, (stream.read buffers').bytes⟩ :=
    ⟨hmethod, hresource, hresponded.streamSize.trans (hresponded.readable.symm.trans (valueSize_eq _))⟩
  exact h.generate hwell hresponded.notSilent haccounts hresponded.valid hcontent hresponse hcount hsocket
    birth

/-- A complete request is answered, or nobody but its client is concerned. -/
theorem processRequest_meets (hi : i < s.clients.elements.length) (howner : s.OwnerInv)
    (hlive : (s.client i).dead = false) (hencrypted : (s.client i).encrypted = false)
    (hplain : (s.client i).Plain) (hend : (s.client i).progress.parser.state = .end)
    (hparse : ParseInv (s.client i).acceptingSocket (s.client i).requestStream.size
      (s.client i).progress)
    (hledger : Ledger (s.client i) (s.pending i) (history (s.client i).birth s.effects))
    (answers : ProcessAnswers) :
    (processRequest i answers s).Meets True
      (fun _ t => Answered i s t ∧ (t.client i).responseCount = (s.client i).responseCount + 1)
      fun e t => NotAnswered i s t e ∧ e.has partialEefDie = false ∧ (t.client i).ssl = false := by
  obtain ⟨method, resource, protocol, hfound⟩ := hplain.found hparse hend
  -- the short response stream is flushed
  refine (flushShortResponseStream_meets howner answers.flush).andThen (fun _ s₁ hflushed => ?_) ?_
  swap
  · rintro e _ ⟨rfl, he⟩
    exact ⟨⟨.refl i _, howner, ⟨[], (List.append_nil _).symm, .inl rfl⟩,
      fun hsend => absurd hsend (by simp [ExError.not_has_send (.inl he)])⟩, ExError.not_has_die he,
      hplain.ssl⟩
  have hmoved := hflushed.clients i
  obtain ⟨hrequest, hprogress⟩ := hmoved.request
  have hplain₁ := hmoved.plain hplain
  have hbooks₁ := hmoved.sameBooks
  have hway₁ := hflushed.onTheWay i
  -- the response is generated
  have hfound₁ : RequestFound (ringLookup (s₁.client i).requestStream)
      (s₁.client i).progress.request method resource protocol := by
    rw [hrequest, hprogress]
    exact hfound
  have hvalid₁ : (s₁.client i).responseQueue.Valid := by
    obtain ⟨entries, part, done, rest, hqueue⟩ := hledger
    rw [hbooks₁.responseQueue]
    exact hqueue.queue.valid
  refine (generateResponse_meets hvalid₁ hfound₁ answers.processor).andThen (fun result s₂ hs₂ => ?_) ?_
  swap
  · rintro e _ ⟨⟨buffers, rfl⟩, he⟩
    have hway := hway₁.process buffers
    exact ⟨⟨hway.spares, .inl hway.nobody, ⟨[], hway.effects, .inl rfl⟩,
      fun _ => ⟨hway.effects.trans (List.append_nil _), hway.pending, hbooks₁⟩⟩,
      not_die_of_processorError he, hplain₁.ssl⟩
  obtain ⟨response, stream⟩ := result
  obtain ⟨buffers, queue, keepAlive, hs₂, hresponded⟩ := hs₂
  set client₂ : Client := { s₁.client i with responseQueue := queue } with hclient₂
  have hway₂ : OnTheWay i s s₂ client₂ buffers [] := by
    rw [hs₂]
    exact (hway₁.write (d := client₂) hi ⟨rfl, rfl, rfl, rfl, rfl⟩ rfl).process buffers
  clear hs₂
  dsimp only at hresponded ⊢
  -- it is told
  set answer : Generated := ⟨method.bytes, resource.bytes, (stream.read buffers).bytes⟩
  set log : Effect := .generated (s.client i).birth answer.method answer.resource answer.text
  have hlog : requestLog (s₂.client i) (stream.read s₂.buffers).bytes = log := by
    have hfound₂ : RequestFound (ringLookup (s₂.client i).requestStream)
        (s₂.client i).progress.request method resource protocol := by
      rw [hway₂.client_eq]
      exact hfound₁
    rw [requestLog_eq hfound₂, hway₂.spares.self.birth, hway₂.buffers_eq]
  rw [hlog]
  have hway₃ := hway₂.tell log rfl
  rw [List.nil_append] at hway₃
  generalize s₂.emit log = s₃ at hway₃ ⊢
  -- the request is taken out
  have hrequests : client₂.requestStream.Valid := hplain₁.requests
  have hle : client₂.progress.request.streamSize ≤ client₂.requestStream.size := by
    rw [hclient₂, hrequest, hprogress]
    exact hparse.streamSize_le
  obtain ⟨requestStream, htake, hrequestValid, hrequestSize⟩ := takeRequest_ok hrequests hle response
  rw [Server.onClient, hway₃.client_eq, htake, Outcome.mapState_ok, Outcome.andThen_ok]
  set client₄ : Client := { client₂ with
      requestStream := requestStream
      response := if client₂.responseCount = 0 then response else client₂.response } with hclient₄
  have hway₄ := hway₃.write (d := client₄) hi ⟨rfl, rfl, rfl, rfl, rfl⟩ rfl
  generalize s₃.setClient i client₄ = s₄ at hway₄ ⊢
  -- the response is stored
  refine (hway₄.stored hi hplain₁.ssl hplain₁.stream hresponded.readable answers response).andThen
    (fun _ s₅ hstored => ?_) ?_
  swap
  · rintro e t ⟨hway, he⟩
    exact ⟨⟨hway.spares, .inl hway.nobody, ⟨_, hway.effects, .inr ⟨⟨method.bytes, resource.bytes, _⟩, rfl⟩⟩,
      fun hsend => absurd hsend (by simp [ExError.not_has_send (.inl he)])⟩, ExError.not_has_die he,
      hway.client_eq ▸ hplain₁.ssl⟩
  -- the count and the parser are written
  obtain ⟨stream₅, hvalid₅, hclient₅⟩ := hstored.client_eq
  have hlt₅ : i < s₅.clients.elements.length := hstored.spares.length ▸ hi
  set counted : Client := { s₅.client i with
    responseCount := (s₅.client i).responseCount + 1 } with hcounted
  have hssl : counted.ssl = false := by rw [hcounted, hclient₅]; exact hplain₁.ssl
  rw [Server.onClient, Server.client_setClient hlt₅, resetParser_ok hssl, Outcome.mapState_ok,
    Server.setClient_setClient]
  obtain ⟨d, hd⟩ : ∃ d : Client, d = { counted with
      progress := if counted.response.keepAlive then .zero else counted.progress } := ⟨_, rfl⟩
  rw [← hd]
  have hd' : d = { s₁.client i with
      responseQueue := queue
      requestStream := requestStream
      response := if (s₁.client i).responseCount = 0 then response else (s₁.client i).response
      responseStream := stream₅
      responseCount := (s₁.client i).responseCount + 1
      progress := if counted.response.keepAlive then .zero else (s₁.client i).progress } := by
    rw [hd, hcounted, hclient₅]
  have hsame : (s₅.client i).SameIdentity d := by
    rw [hd, hcounted]
    exact ⟨rfl, rfl, rfl, rfl, rfl⟩
  have hplain' : d.Plain := by
    rw [hd']
    refine ⟨hplain₁.operational, hplain₁.ssl, hrequestValid, ?_, hvalid₅⟩
    by_cases hkeep : counted.response.keepAlive = true
    · simp only [if_pos hkeep]
      exact fun _ => Progress.zero_parseInv _ _
    · simp only [if_neg hkeep, hprogress]
      exact fun hne => absurd hend hne
  have htimes : (s.client i).SameTimes d := by
    rw [hd']
    exact ⟨hmoved.sameTimes.lastRequestComplete, hmoved.sameTimes.lastRequestStreamNotEmpty,
      hmoved.sameTimes.lastResponseStreamNotFull, hmoved.sameTimes.lastResponseComplete⟩
  have hshorter : d.requestStream.size
      = (s.client i).requestStream.size - (s.client i).progress.request.streamSize := by
    rw [hd']
    refine hrequestSize.trans ?_
    rw [hclient₂]
    dsimp only
    rw [hrequest, hprogress]
  have hbooks : Ledger d (s.pending i ++ answer.text) (history (s.client i).birth s.effects ++ [log]) :=
    hledger.respond hresponded hbooks₁.responseQueue (by rw [hd'])
      (by rw [hd', hbooks₁.responseCount, hbooks₁.response]) (by rw [hd', hbooks₁.responseCount])
      (by rw [hd']; exact hmoved.identity.acceptingSocket) (s.client i).birth
  obtain ⟨hanswered, hclient⟩ := hstored.answered hi hlive hencrypted hsame (by rw [hd]) hplain' htimes
    hshorter hbooks
  refine ⟨hanswered, ?_⟩
  rw [hclient, hd', hbooks₁.responseCount]

end

end Twinkleshine
