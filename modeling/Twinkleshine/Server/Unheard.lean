import Twinkleshine.Library.Alike
import Twinkleshine.Server.Owner

/-!
# Visits that hear no message

Reference: `source/server/receive.c`, `source/server/high_level.c`.

The message that was received last stands in a buffer that all clients share, and what is left of earlier
ones stands behind it. A visit of a client of Guppy that does not own the message looks at none of this, and
neither does the rest of a visit that has taken the message: it goes the same way with other bytes in the
buffer, which belong to nobody. So whatever a message may do, it does when it is taken.
-/

namespace Twinkleshine

open Library

variable {i : ℕ} {s : Server} {v : Visit} {now : ℤ} {bytes : List UInt8} {other : Elsewhere}

/-! ## Other bytes -/

/-- What may be different for a client that owns no message: the bytes in the buffer, and for whom `poll()`
has reported a message. -/
structure Elsewhere where
  bytes : List UInt8
  polls : Buffer Poll → Buffer Poll
  pollErr : ∀ buffer k, ((polls buffer).elements.getD k .zero).revents.pollErr
    = (buffer.elements.getD k .zero).revents.pollErr
  pollHup : ∀ buffer k, ((polls buffer).elements.getD k .zero).revents.pollHup
    = (buffer.elements.getD k .zero).revents.pollHup

/-- Other bytes, and nothing else. -/
def Elsewhere.only (bytes : List UInt8) : Elsewhere := ⟨bytes, id, fun _ _ => rfl, fun _ _ => rfl⟩

/-- The server with other bytes in the buffer for messages, which belong to nobody. -/
def Server.disown (other : Elsewhere) (s : Server) : Server :=
  { s with
    polls := other.polls s.polls
    shortRequestMessage := other.bytes
    shortRequestMessageOwner := none
    shortRequestMessageSize := 0 }

@[simp] theorem Server.client_disown (other : Elsewhere) (s : Server) (i : ℕ) :
    (s.disown other).client i = s.client i := rfl

@[simp] theorem Server.shortResponseStreamOwner_disown (other : Elsewhere) (s : Server) :
    (s.disown other).shortResponseStreamOwner = s.shortResponseStreamOwner := rfl

@[simp] theorem Server.owns_disown (other : Elsewhere) (s : Server) (i : ℕ) :
    (s.disown other).owns i = s.owns i := rfl

def Visit.disown (other : Elsewhere) (v : Visit) : Visit := { v with server := v.server.disown other }

@[simp] theorem Visit.client_disown (other : Elsewhere) (v : Visit) (i : ℕ) :
    (v.disown other).server.client i = v.server.client i := rfl

/-- A client that was made for a message. It is not encrypted. -/
structure Client.OfGuppy (client : Client) : Prop where
  message : acceptingSocketIsMessage client.acceptingSocket = true
  ssl : client.ssl = false
  operational : client.cryptographyState = .operational

/-- Client `i` was made for a message, and owns none now. -/
structure Server.Unaddressed (i : ℕ) (s : Server) : Prop where
  client : (s.client i).OfGuppy
  notOwner : s.shortRequestMessageOwner ≠ some (s.pointer i)

/-- The same while the server makes a visit. -/
def Visit.Unaddressed (i : ℕ) (v : Visit) : Prop := v.server.Unaddressed i

theorem Client.OfGuppy.connection {client : Client} (h : client.OfGuppy) :
    ¬ acceptingSocketIsConnection client.acceptingSocket = true := by
  have hmessage := h.message
  simp only [acceptingSocketIsMessage, acceptingSocketIsConnection, decide_eq_true_eq] at hmessage ⊢
  omega

theorem Client.OfGuppy.lt (h : (s.client i).OfGuppy) : i < s.clients.elements.length := by
  by_contra hout
  have hmessage := h.message
  rw [Server.client, List.getD_eq_default _ _ (Nat.not_lt.mp hout)] at hmessage
  cases hmessage

namespace Server.Unaddressed

theorem setClient (h : s.Unaddressed i) (client : Client) (hclient : client.OfGuppy) :
    (s.setClient i client).Unaddressed i :=
  ⟨by rw [Server.client_setClient h.client.lt]; exact hclient, h.notOwner⟩

/-- The response stream of a client is written, whoever that is. -/
theorem setStream (h : s.Unaddressed i) (j : ℕ) (stream : Ring) :
    (s.setClient j { s.client j with responseStream := stream }).Unaddressed i := by
  by_cases hj : j = i
  · rw [hj]
    exact h.setClient _ ⟨h.client.message, h.client.ssl, h.client.operational⟩
  · exact ⟨by rw [Server.client_setClient_of_ne s hj]; exact h.client, h.notOwner⟩

/-- A computation on client `i`. -/
theorem onClient {α : Type} {f : Client → Outcome ExError Client α} (h : s.Unaddressed i)
    (hf : (f (s.client i)).Keeps Client.OfGuppy) :
    Outcome.Alike (Server.disown other) (Server.Unaddressed i) (s.onClient i f)
      ((s.disown other).onClient i f) :=
  (Outcome.Alike.refl hf).mapState (fun _ _ => rfl) fun _ hclient => h.setClient _ hclient

end Server.Unaddressed

/-! ## Processing -/

theorem flushShortResponseStream_alike (h : s.Unaddressed i) (realloc : Realloc) :
    Outcome.Alike (Server.disown other) (Server.Unaddressed i) (flushShortResponseStream realloc s)
      (flushShortResponseStream realloc (s.disown other)) := by
  unfold flushShortResponseStream
  rw [Server.shortResponseStreamOwner_disown]
  rcases s.shortResponseStreamOwner with _ | owner
  · exact .ok h ()
  have hwrite : ((serverReservePushValue realloc (s.shortResponseStream.read s.buffers)
      (s.client owner.index).responseStream).mapState fun stream =>
        { s.client owner.index with responseStream := stream }).Keeps fun client =>
          ∃ stream, client = { s.client owner.index with responseStream := stream } :=
    Outcome.keeps_mapState _ fun stream => ⟨stream, rfl⟩
  refine Outcome.Alike.andThen ((Outcome.Alike.refl hwrite).mapState (fun _ _ => rfl) ?_)
    fun _ t ht => .ok ⟨ht.client, ht.notOwner⟩ ()
  rintro _ ⟨stream, rfl⟩
  exact h.setStream owner.index stream

theorem generateResponse_alike (h : s.Unaddressed i) (env : ProcessorEnvironment) :
    Outcome.Alike (Server.disown other) (Server.Unaddressed i) (generateResponse i env s)
      (generateResponse i env (s.disown other)) := by
  refine (Outcome.Alike.same _).mapState (fun _ _ => rfl) fun r _ => ?_
  have hwritten := h.setClient { s.client i with responseQueue := r.responseQueue }
    ⟨h.client.message, h.client.ssl, h.client.operational⟩
  exact ⟨hwritten.client, hwritten.notOwner⟩

theorem takeRequest_ofGuppy {client : Client} (h : client.OfGuppy) (response : Response) :
    (takeRequest response client).Keeps Client.OfGuppy := by
  unfold takeRequest
  refine (Outcome.keeps_mapState _ fun stream => ?_).andThen (fun _ c hc => ?_) fun _ => id
  · exact ⟨h.message, h.ssl, h.operational⟩
  · split_ifs
    · exact ⟨hc.message, hc.ssl, hc.operational⟩
    · exact hc

theorem resetParser_ofGuppy {client : Client} (h : client.OfGuppy) (answers : ShutdownAnswers) :
    (resetParser answers client).Keeps Client.OfGuppy := by
  unfold resetParser
  rw [if_neg (show ¬ client.ssl = true by rw [h.ssl]; exact Bool.false_ne_true)]
  split_ifs
  · exact ⟨h.message, h.ssl, h.operational⟩
  · exact h

theorem storeResponse_alike (h : s.Unaddressed i) (answers : ProcessAnswers) (response : Response)
    (stream : TextValue) :
    Outcome.Alike (Server.disown other) (Server.Unaddressed i) (storeResponse i answers response stream s)
      (storeResponse i answers response stream (s.disown other)) := by
  unfold storeResponse
  rw [Server.client_disown, h.client.ssl]
  by_cases hstream : (s.client i).responseStream.size > 0
  · rw [if_neg Bool.false_ne_true, if_neg Bool.false_ne_true, if_pos hstream, if_pos hstream]
    refine h.onClient ?_
    exact Outcome.keeps_mapState _ fun stream => ⟨h.client.message, h.client.ssl, h.client.operational⟩
  · rw [if_neg Bool.false_ne_true, if_neg Bool.false_ne_true, if_neg hstream, if_neg hstream]
    exact .ok ⟨h.client, h.notOwner⟩ ()

theorem processRequest_alike (h : s.Unaddressed i) (answers : ProcessAnswers) :
    Outcome.Alike (Server.disown other) (Server.Unaddressed i) (processRequest i answers s)
      (processRequest i answers (s.disown other)) := by
  unfold processRequest
  refine (flushShortResponseStream_alike h _).andThen fun _ s₁ h₁ => ?_
  refine (generateResponse_alike h₁ _).andThen fun result s₂ h₂ => ?_
  obtain ⟨response, stream⟩ := result
  have h₃ : (s₂.emit (requestLog (s₂.client i) (stream.read s₂.buffers).bytes)).Unaddressed i :=
    ⟨h₂.client, h₂.notOwner⟩
  refine (h₃.onClient (takeRequest_ofGuppy h₃.client response)).andThen fun _ s₄ h₄ => ?_
  refine (storeResponse_alike h₄ answers response stream).andThen fun _ s₅ h₅ => ?_
  have h₆ := h₅.setClient { s₅.client i with responseCount := (s₅.client i).responseCount + 1 }
    ⟨h₅.client.message, h₅.client.ssl, h₅.client.operational⟩
  exact h₆.onClient (resetParser_ofGuppy h₆.client answers.finalize)

theorem serverProcessTraffic_alike (h : s.Unaddressed i) (now : ℤ) (answers : ProcessAnswers) :
    Outcome.Alike (Server.disown other) (Server.Unaddressed i) (serverProcessTraffic i now answers s)
      (serverProcessTraffic i now answers (s.disown other)) := by
  unfold serverProcessTraffic
  refine (h.onClient (f := parseRequest) (Outcome.keeps_mapState _ fun progress =>
    ⟨h.client.message, h.client.ssl, h.client.operational⟩)).andThen fun _ t ht => ?_
  rw [Server.client_disown]
  split_ifs
  · exact .ok ht ()
  · exact processRequest_alike (ht.setClient { t.client i with lastRequestComplete := now }
      ⟨ht.client.message, ht.client.ssl, ht.client.operational⟩) answers

/-! ## Sending -/

/-- Something is done to the server that another message in the buffer makes no difference to. -/
structure Deaf (i : ℕ) (other : Elsewhere) (f : Server → Server) : Prop where
  eq : ∀ t : Server, f (t.disown other) = (f t).disown other
  keeps : ∀ t : Server, t.Unaddressed i → (f t).Unaddressed i

theorem Server.Unaddressed.onServer {α : Type} {f f' : Server → Outcome ExError Server α}
    (h : Outcome.Alike (Server.disown other) (Server.Unaddressed i) (f v.server)
      (f' (v.server.disown other))) :
    Outcome.Alike (Visit.disown other) (Visit.Unaddressed i) (v.onServer f)
      ((v.disown other).onServer f') :=
  h.mapState (fun _ _ => rfl) fun _ => id

theorem serverPopResponses_alike (h : s.Unaddressed i) (now : ℤ) (sent : ℕ) :
    Outcome.Alike (Server.disown other) (Server.Unaddressed i) (serverPopResponses i now sent s)
      (serverPopResponses i now sent (s.disown other)) := by
  have hpops : (popResponsesLoop now ((s.client i).responseQueue.size + 2) sent ⟨s.client i, []⟩).Keeps
      fun p => p.client.OfGuppy :=
    popResponsesLoop_keeps (fun _ _ _ _ _ hp => ⟨hp.message, hp.ssl, hp.operational⟩)
      (fun _ _ _ hp => hp) now _ sent h.client
  refine (Outcome.Alike.refl hpops).mapState (fun _ _ => rfl) fun p hp => ?_
  have hwritten := h.setClient _ hp
  exact ⟨hwritten.client, hwritten.notOwner⟩

theorem Server.Unaddressed.afterMessage (h : s.Unaddressed i) (chunks : MutableValue) (lastChunkSent : ℤ)
    (r : Messaging) : (s.afterMessage i chunks lastChunkSent r).Unaddressed i := by
  have hwritten := h.setClient { s.client i with
    responseQueue := (s.client i).responseQueue.write chunks r.chunks
    lastChunkSent := lastChunkSent } ⟨h.client.message, h.client.ssl, h.client.operational⟩
  exact ⟨hwritten.client, hwritten.notOwner⟩

theorem sendMessage_alike (h : v.Unaddressed i) (now : ℤ) {advance : ℕ → Server → Server}
    (hadvance : ∀ n, Deaf i other (advance n)) (stream : ConstantValue) :
    Outcome.Alike (Visit.disown other) (Visit.Unaddressed i)
      (sendMessage i now advance stream v) (sendMessage i now advance stream (v.disown other)) := by
  unfold sendMessage
  simp only [Visit.client_disown]
  generalize intLength _ = digits
  refine Outcome.Alike.andThen (.ofOption h digits) fun length w hw => ?_
  refine Outcome.Alike.andThen (.ofExcept hw _) fun chunks u hu => ?_
  refine (Outcome.Alike.same _).handle (fun _ r _ => ?_) fun e r _ => ?_
  · refine ⟨?_, (hadvance _).keeps _ (hu.afterMessage chunks _ r)⟩
    simp only [Outcome.mapState_ok, Visit.disown]
    rw [← (hadvance _).eq]
    rfl
  · exact ⟨rfl, hu.afterMessage chunks _ r⟩

theorem sendValue_alike (h : v.Unaddressed i) (now : ℤ) (answers : SendAnswer × SendAnswer)
    {advance : ℕ → Server → Server} (hadvance : ∀ n, Deaf i other (advance n)) (stream : ConstantValue) :
    Outcome.Alike (Visit.disown other) (Visit.Unaddressed i)
      (sendValue i now answers advance stream v) (sendValue i now answers advance stream (v.disown other)) := by
  unfold sendValue
  rw [if_neg h.client.connection, if_neg (show ¬ acceptingSocketIsConnection
    ((v.disown other).server.client i).acceptingSocket = true from h.client.connection)]
  exact sendMessage_alike h now hadvance stream

theorem serverSendShortResponseStream_alike (h : v.Unaddressed i) (now : ℤ)
    (answers : SendAnswer × SendAnswer) :
    Outcome.Alike (Visit.disown other) (Visit.Unaddressed i) (serverSendShortResponseStream i now answers v)
      (serverSendShortResponseStream i now answers (v.disown other)) := by
  have hadvance : ∀ n, Deaf i other (advanceShort n) := fun n =>
    ⟨fun _ => rfl, fun t ht => ⟨ht.client, ht.notOwner⟩⟩
  unfold serverSendShortResponseStream
  refine (sendValue_alike h now answers hadvance _).andThen fun sent w hw => ?_
  have hpops : ∀ u : Visit, u.Unaddressed i → Outcome.Alike (Visit.disown other) (Visit.Unaddressed i)
      (u.onServer fun s => (serverPopResponses i now sent s).mapError (extend .closeLogDie))
      ((u.disown other).onServer fun s => (serverPopResponses i now sent s).mapError (extend .closeLogDie)) :=
    fun u hu => Server.Unaddressed.onServer ((serverPopResponses_alike hu now sent).mapError _)
  by_cases hempty : w.server.shortResponseStream.size = 0
  · dsimp only
    rw [if_pos hempty, if_pos (show (w.disown other).server.shortResponseStream.size = 0 from hempty)]
    exact hpops { w with server.shortResponseStreamOwner := none } ⟨hw.client, hw.notOwner⟩
  · dsimp only
    rw [if_neg hempty, if_neg (show ¬ (w.disown other).server.shortResponseStream.size = 0 from hempty)]
    exact hpops w hw

theorem serverSendLongOutputBuffer_alike (h : v.Unaddressed i) (now : ℤ)
    (answers : SendAnswer × SendAnswer) :
    Outcome.Alike (Visit.disown other) (Visit.Unaddressed i) (serverSendLongOutputBuffer i now answers v)
      (serverSendLongOutputBuffer i now answers (v.disown other)) := by
  have hadvance : ∀ n, Deaf i other ((fun _ t => t : ℕ → Server → Server) n) := fun _ =>
    ⟨fun _ => rfl, fun _ => id⟩
  unfold serverSendLongOutputBuffer
  simp only [Visit.client_disown]
  refine (sendValue_alike h now answers hadvance _).andThen fun sent w hw => ?_
  have hpop : Outcome.Alike (Server.disown other) (Server.Unaddressed i) (popLong i sent w.server)
      (popLong i sent (w.server.disown other)) := by
    refine Server.Unaddressed.onClient hw ?_
    exact Outcome.keeps_mapState _ fun stream => ⟨hw.client.message, hw.client.ssl, hw.client.operational⟩
  refine (Server.Unaddressed.onServer hpop).andThen fun _ u hu => ?_
  exact Server.Unaddressed.onServer ((serverPopResponses_alike hu now sent).mapError _)

theorem serverSendTraffic_alike (h : v.Unaddressed i) (now : ℤ) (answers : SendAnswers) :
    Outcome.Alike (Visit.disown other) (Visit.Unaddressed i) (serverSendTraffic i now answers v)
      (serverSendTraffic i now answers (v.disown other)) := by
  have hshort : Outcome.Alike (Visit.disown other) (Visit.Unaddressed i)
      (if v.server.owns i then
        (serverSendShortResponseStream i now answers.short v).andThen fun _ v =>
          .ok v.server.shortResponseStream.size v
      else .ok 0 v)
      (if v.server.owns i then
        (serverSendShortResponseStream i now answers.short (v.disown other)).andThen fun _ v =>
          .ok v.server.shortResponseStream.size v
      else .ok 0 (v.disown other)) := by
    split_ifs
    · exact (serverSendShortResponseStream_alike h now answers.short).andThen fun _ w hw => .ok hw _
    · exact .ok h 0
  refine Outcome.Alike.andThen hshort fun size w hw => ?_
  have hlong : Outcome.Alike (Visit.disown other) (Visit.Unaddressed i)
      (if w.flags.saturated = false ∧ (w.server.client i).responseStream.size > 0 then
        serverSendLongOutputBuffer i now answers.long w
      else .ok () w)
      (if w.flags.saturated = false ∧ (w.server.client i).responseStream.size > 0 then
        serverSendLongOutputBuffer i now answers.long (w.disown other)
      else .ok () (w.disown other)) := by
    split_ifs
    · exact serverSendLongOutputBuffer_alike hw now answers.long
    · exact .ok hw ()
  refine Outcome.Alike.andThen hlong fun _ u hu => ?_
  dsimp only
  by_cases hroom : size + (u.server.client i).responseStream.size < maxResponseStreamSize
  · rw [if_pos hroom, if_pos (show size + ((u.disown other).server.client i).responseStream.size
      < maxResponseStreamSize from hroom)]
    exact ⟨rfl, Server.Unaddressed.setClient hu _ ⟨hu.client.message, hu.client.ssl, hu.client.operational⟩⟩
  · rw [if_neg hroom, if_neg (show ¬ size + ((u.disown other).server.client i).responseStream.size
      < maxResponseStreamSize from hroom)]
    exact .ok hu ()

/-! ## Rounds -/

/-- Why the first round of a visit finds that the client is to be given up, if it does. -/
def Server.givesUp (s : Server) (i : ℕ) (now : ℤ) : Option ExError :=
  let revents := (s.poll (pollIndex s i)).revents
  if revents.pollErr || revents.pollHup then some ⟨"Connection failed", .closeLog⟩
  else
    match checkTimeouts s i now none with
    | .error e => some e
    | .ok _ => none

theorem roundFirst_eq (i : ℕ) (now : ℤ) (v : Visit) :
    roundFirst i now v =
      match (if v.first then v.server.givesUp i now else none) with
      | some e => .error e { v with first := false }
      | none => .ok () { v with first := false } := by
  unfold roundFirst
  by_cases hfirst : v.first = true
  · rw [if_pos hfirst, if_pos hfirst, Server.givesUp]
    dsimp only
    split_ifs
    · rfl
    · cases checkTimeouts v.server i now none <;> rfl
  · rw [if_neg hfirst, if_neg hfirst, ← Bool.eq_false_iff.mpr hfirst]

theorem Server.givesUp_disown (other : Elsewhere) (s : Server) (i : ℕ) (now : ℤ) :
    (s.disown other).givesUp i now = s.givesUp i now := by
  have herr : ((s.disown other).poll (pollIndex s i)).revents.pollErr
      = (s.poll (pollIndex s i)).revents.pollErr := other.pollErr s.polls _
  have hhup : ((s.disown other).poll (pollIndex s i)).revents.pollHup
      = (s.poll (pollIndex s i)).revents.pollHup := other.pollHup s.polls _
  have hindex : pollIndex (s.disown other) i = pollIndex s i := rfl
  have hchecks : checkTimeouts (s.disown other) i now none = checkTimeouts s i now none := rfl
  rw [Server.givesUp, Server.givesUp, hindex, herr, hhup, hchecks]

theorem roundFirst_alike (h : v.Unaddressed i) (now : ℤ) :
    Outcome.Alike (Visit.disown other) (Visit.Unaddressed i) (roundFirst i now v)
      (roundFirst i now (v.disown other)) := by
  have hsame : (if (v.disown other).first then (v.disown other).server.givesUp i now else none)
      = if v.first then v.server.givesUp i now else none := by
    rw [Visit.disown, Server.givesUp_disown]
  rw [roundFirst_eq, roundFirst_eq, hsame]
  rcases (if v.first then v.server.givesUp i now else none) with _ | e
  · exact ⟨rfl, h⟩
  · exact ⟨rfl, h⟩

/-- The end of a client that owns no message writes nothing but the client. -/
theorem finalizeClient_unaddressed (h : s.Unaddressed i) :
    finalizeClient i s = s.setClient i (s.client i).finalized ∧ (finalizeClient i s).Unaddressed i := by
  have heq : finalizeClient i s = s.setClient i (s.client i).finalized := by
    unfold finalizeClient
    rw [if_neg h.client.connection, clientFinalize_eq, if_neg h.notOwner, if_neg h.notOwner]
    rfl
  rw [heq]
  exact ⟨rfl, h.setClient _ ⟨h.client.message, rfl, h.client.operational⟩⟩

theorem Server.Unaddressed.disown (h : s.Unaddressed i) (other : Elsewhere) :
    (s.disown other).Unaddressed i :=
  ⟨h.client, fun howner => Option.some_ne_none _ howner.symm⟩

/-- The same with other bytes in the buffer. -/
theorem finalizeClient_disown (h : s.Unaddressed i) (other : Elsewhere) :
    finalizeClient i (s.disown other) = (finalizeClient i s).disown other := by
  rw [(finalizeClient_unaddressed h).1, (finalizeClient_unaddressed (h.disown other)).1]
  rfl

theorem assertAll_alike (h : v.Unaddressed i) (checks : List (Bool × String)) :
    Outcome.Alike (Visit.disown other) (Visit.Unaddressed i) (assertAll checks v)
      (assertAll checks (v.disown other)) := by
  induction checks with
  | nil => exact .ok h ()
  | cons check checks ih =>
    rw [assertAll, assertAll]
    split_ifs
    · exact ih
    · exact .error h _

/-- The end of a client in a round, whatever the value of the block is. -/
theorem finalizeVisit_alike {α : Type} (h : v.Unaddressed i) (a : α) :
    Outcome.Alike (Visit.disown other) (Visit.Unaddressed i)
      (.ok a { v with server := finalizeClient i v.server } : Outcome ExError Visit α)
      (.ok a { v.disown other with server := finalizeClient i (v.disown other).server }) :=
  ⟨congrArg (fun t => Outcome.ok a (Visit.mk t v.flags v.first v.doneSomething))
    (finalizeClient_disown h other), (finalizeClient_unaddressed h).2⟩

/-- What `server_process_client_round` does once the client has received. -/
def afterReceive (i : ℕ) (v : Visit) : Outcome ExError Visit Bool :=
  if clientTerminated i v then
    (assertAll (clientTerminatedChecks i v.server) v).andThen fun _ v =>
    .ok true { v with server := finalizeClient i v.server }
  else .ok false v

theorem afterReceive_alike (h : v.Unaddressed i) :
    Outcome.Alike (Visit.disown other) (Visit.Unaddressed i) (afterReceive i v)
      (afterReceive i (v.disown other)) := by
  have hterminated : clientTerminated i (v.disown other) = clientTerminated i v := rfl
  unfold afterReceive
  rw [hterminated]
  split_ifs
  · exact (assertAll_alike h _).andThen fun _ w hw => finalizeVisit_alike hw true
  · exact .ok h false

theorem Client.OfGuppy.noteNotEmpty {client : Client} (h : client.OfGuppy) (now : ℤ) :
    (client.noteNotEmpty now).OfGuppy := by
  unfold Client.noteNotEmpty
  split_ifs
  · exact ⟨h.message, h.ssl, h.operational⟩
  · exact h

/-- What is received when the message belongs to somebody else: nothing, and nothing more is sent. -/
theorem serverReceiveTraffic_unaddressed (h : v.Unaddressed i) (now : ℤ) (answers : ReceiveTrafficAnswers) :
    serverReceiveTraffic i now answers v = .ok () { v with
      server := v.server.setClient i ((v.server.client i).noteNotEmpty now)
      flags := { v.flags with saturated := true, exhausted := true } } := by
  rw [serverReceiveTraffic, if_pos h.client.message, serverReceiveDataGuppy, if_pos h.notOwner]
  rfl

theorem roundReceive_eq (i : ℕ) (now : ℤ) (answers : ReceiveTrafficAnswers) (v : Visit) :
    roundReceive i now answers v =
      if v.flags.exhausted = false ∧ v.flags.closed = false ∧ getMakesSenseToReceive v.server i = true then
        (serverReceiveTraffic i now answers { v with doneSomething := true }).andThen
          fun _ v => afterReceive i v
      else .ok false v := rfl

theorem roundReceive_alike (h : v.Unaddressed i) (now : ℤ) (answers : ReceiveTrafficAnswers) :
    Outcome.Alike (Visit.disown other) (Visit.Unaddressed i) (roundReceive i now answers v)
      (roundReceive i now answers (v.disown other)) := by
  have hsense : getMakesSenseToReceive (v.disown other).server i = getMakesSenseToReceive v.server i := rfl
  rw [roundReceive_eq, roundReceive_eq, hsense]
  by_cases hreceive : v.flags.exhausted = false ∧ v.flags.closed = false ∧
      getMakesSenseToReceive v.server i = true
  · rw [if_pos hreceive, if_pos (show (v.disown other).flags.exhausted = false ∧
      (v.disown other).flags.closed = false ∧ getMakesSenseToReceive v.server i = true from hreceive)]
    have hbusy : ({ v with doneSomething := true } : Visit).Unaddressed i := h
    have hbusy' : (Visit.disown other { v with doneSomething := true }).Unaddressed i :=
      Server.Unaddressed.disown h other
    have hnoted : ({ v with
        server := v.server.setClient i ((v.server.client i).noteNotEmpty now)
        flags := { v.flags with saturated := true, exhausted := true }
        doneSomething := true } : Visit).Unaddressed i :=
      Server.Unaddressed.setClient h _ (h.client.noteNotEmpty now)
    rw [serverReceiveTraffic_unaddressed hbusy]
    have hother := serverReceiveTraffic_unaddressed hbusy' now answers
    rw [show ({ v.disown other with doneSomething := true } : Visit)
      = Visit.disown other { v with doneSomething := true } from rfl, hother]
    exact afterReceive_alike hnoted
  · rw [if_neg hreceive, if_neg (show ¬ ((v.disown other).flags.exhausted = false ∧
      (v.disown other).flags.closed = false ∧ getMakesSenseToReceive v.server i = true) from hreceive)]
    exact .ok h false

theorem roundParse_alike (h : v.Unaddressed i) (now : ℤ) (answers : ProcessAnswers)
    (shutdown : ShutdownAnswers) :
    Outcome.Alike (Visit.disown other) (Visit.Unaddressed i) (roundParse i now answers shutdown v)
      (roundParse i now answers shutdown (v.disown other)) := by
  have hsense : getMakesSenseToParse (v.disown other).server i = getMakesSenseToParse v.server i := rfl
  unfold roundParse
  rw [hsense]
  by_cases hparse : getMakesSenseToParse v.server i = true
  · rw [if_pos hparse, if_pos hparse]
    have hbusy : ({ v with doneSomething := true } : Visit).Unaddressed i := h
    refine (Server.Unaddressed.onServer (serverProcessTraffic_alike hbusy now answers)).andThen
      fun _ w hw => ?_
    have hplain : ∀ u : Visit, (u.server.client i).ssl = false →
        ¬ ((u.server.client i).ssl = true ∧ (u.server.client i).progress.parser.state = .end) := by
      rintro u hssl ⟨hencrypted, -⟩
      rw [hssl] at hencrypted
      cases hencrypted
    dsimp only
    rw [if_neg (hplain w hw.client.ssl), if_neg (hplain (w.disown other) hw.client.ssl)]
    exact .ok hw ()
  · rw [if_neg hparse, if_neg hparse]
    exact .ok h ()

theorem roundSend_alike (h : v.Unaddressed i) (now : ℤ) (answers : SendAnswers) :
    Outcome.Alike (Visit.disown other) (Visit.Unaddressed i) (roundSend i now answers v)
      (roundSend i now answers (v.disown other)) := by
  have hsense : (((v.disown other).flags.saturated = false ∧
      getMakesSenseToSend (v.disown other).server i = true)
        = (v.flags.saturated = false ∧ getMakesSenseToSend v.server i = true)) := rfl
  unfold roundSend
  by_cases hsend : v.flags.saturated = false ∧ getMakesSenseToSend v.server i = true
  · rw [if_pos hsend, if_pos (hsense ▸ hsend)]
    have hbusy : ({ v with doneSomething := true } : Visit).Unaddressed i := h
    refine (serverSendTraffic_alike hbusy now answers).andThen fun _ w hw => ?_
    have hterminates : serverTerminates i (w.disown other).server = serverTerminates i w.server := rfl
    rw [hterminates]
    by_cases hends : serverTerminates i w.server = true
    · rw [if_pos hends, if_pos hends]
      exact (assertAll_alike hw _).andThen fun _ u hu => finalizeVisit_alike hu ()
    · rw [if_neg hends, if_neg hends]
      exact .ok hw ()
  · rw [if_neg hsend, if_neg (hsense ▸ hsend)]
    exact .ok h ()

/-- The blocks of a round behind the receipt. -/
def afterBlocks (i : ℕ) (now : ℤ) (answers : RoundAnswers) (finalized : Bool) (v : Visit) :
    Outcome ExError Visit Unit :=
  if finalized then .ok () v
  else
    (roundParse i now answers.process answers.shutdown v).andThen fun _ v =>
    roundSend i now answers.send v

theorem afterBlocks_alike (h : v.Unaddressed i) (now : ℤ) (answers : RoundAnswers) (finalized : Bool) :
    Outcome.Alike (Visit.disown other) (Visit.Unaddressed i) (afterBlocks i now answers finalized v)
      (afterBlocks i now answers finalized (v.disown other)) := by
  unfold afterBlocks
  split_ifs
  · exact .ok h ()
  · exact (roundParse_alike h now answers.process answers.shutdown).andThen
      fun _ w hw => roundSend_alike hw now answers.send

theorem roundBlocks_eq (i : ℕ) (now : ℤ) (answers : RoundAnswers) (v : Visit) :
    roundBlocks i now answers v = (roundFirst i now v).andThen fun _ v =>
      (roundReceive i now answers.receive v).andThen (afterBlocks i now answers) := rfl

theorem roundBlocks_alike (h : v.Unaddressed i) (now : ℤ) (answers : RoundAnswers) :
    Outcome.Alike (Visit.disown other) (Visit.Unaddressed i) (roundBlocks i now answers v)
      (roundBlocks i now answers (v.disown other)) := by
  rw [roundBlocks_eq, roundBlocks_eq]
  refine (roundFirst_alike h now).andThen fun _ w hw => ?_
  exact (roundReceive_alike hw now answers.receive).andThen fun finalized u hu =>
    afterBlocks_alike hu now answers finalized

/-- A client that is not encrypted is not recovered. -/
theorem serverProcessClientRound_of_alike {w : Visit} {answers : RoundAnswers}
    (h : Outcome.Alike (Visit.disown other) (Visit.Unaddressed i) (roundBlocks i now answers v)
      (roundBlocks i now answers w)) :
    Outcome.Alike (Visit.disown other) (Visit.Unaddressed i) (serverProcessClientRound i now answers v)
      (serverProcessClientRound i now answers w) := by
  refine h.handle (fun _ u hu => .ok hu ()) fun e u hu => ?_
  have hrecovers : ∀ u : Visit, (u.server.client i).ssl = false → roundRecovers i e u.server ≠ true := by
    intro u hssl
    rw [roundRecovers, hssl]
    exact Bool.false_ne_true
  dsimp only
  rw [if_neg (hrecovers u hu.client.ssl), if_neg (hrecovers (u.disown other) hu.client.ssl)]
  exact .error hu e

/-! ## Visits -/

theorem failureActions_alike (h : s.Unaddressed i) (taken : ℕ) (e : ExError) :
    Outcome.Alike (Server.disown other) (Server.Unaddressed i) (failureActions i taken e s)
      (failureActions i taken e (s.disown other)) := by
  have hfixed : sendFixed i taken e (s.disown other) = (sendFixed i taken e s).disown other ∧
      (sendFixed i taken e s).Unaddressed i := by
    unfold sendFixed
    rw [Server.client_disown]
    dsimp only
    rw [if_neg h.client.connection, if_neg h.client.connection]
    split_ifs
    · exact ⟨rfl, h.client, h.notOwner⟩
    · exact ⟨rfl, h⟩
  have hend : ∀ (p : Prop) [Decidable p] (t : Server), t.Unaddressed i →
      (if p then finalizeClient i (t.disown other) else t.disown other)
        = (if p then finalizeClient i t else t).disown other ∧
          (if p then finalizeClient i t else t).Unaddressed i := by
    intro p _ t ht
    split_ifs
    · exact ⟨finalizeClient_disown ht other, (finalizeClient_unaddressed ht).2⟩
    · exact ⟨rfl, ht⟩
  obtain ⟨hshutdown, hshutdown'⟩ := hend (e.has partialEefShutdown = true) _ hfixed.2
  obtain ⟨hclose, hclose'⟩ := hend (e.has partialEefClose = true) _ hshutdown'
  unfold failureActions
  dsimp only
  rw [hfixed.1, hshutdown, hclose]
  generalize (if e.has partialEefClose = true then finalizeClient i _ else _) = t at hclose'
  split_ifs
  · exact .error (s := t.emit _) ⟨hclose'.client, hclose'.notOwner⟩ _
  · exact .error hclose' _
  · exact .ok (s := t.emit _) ⟨hclose'.client, hclose'.notOwner⟩ ()
  · exact .ok hclose' ()

/-- A client of Guppy is not polled for: only the time to wait is lowered. -/
theorem prepareToWait_ofGuppy (h : (s.client i).OfGuppy) (now remaining : ℤ) :
    (prepareToWait i now remaining s).1 = s ∧ ∀ other : Elsewhere,
      (prepareToWait i now remaining (s.disown other)).2 = (prepareToWait i now remaining s).2 := by
  refine ⟨by rw [prepareToWait_fst, if_neg h.connection], fun other => ?_⟩
  have hsense : getMakesSenseToSend (s.disown other) i = getMakesSenseToSend s i := rfl
  have hchecks : ∀ r, checkTimeouts (s.disown other) i now r = checkTimeouts s i now r := fun _ => rfl
  unfold prepareToWait
  simp only [Server.client_disown, if_neg h.connection, hsense, hchecks]
  split <;> rfl

/-- What goes alike for a round goes alike for the visit, if the later rounds do. -/
theorem serverProcessClientLoop_of_round {w : Visit} {remaining : ℤ} {answers : VisitAnswers} {fuel k : ℕ}
    (hround : Outcome.Alike (Visit.disown other) (Visit.Unaddressed i)
      (roundBlocks i now (answers.rounds k) { v with doneSomething := false })
      (roundBlocks i now (answers.rounds k) { w with doneSomething := false }))
    (hrest : ∀ u : Visit, u.Unaddressed i → Outcome.Alike (Server.disown other) (Server.Unaddressed i)
      (serverProcessClientLoop i now remaining answers fuel (k + 1) u)
      (serverProcessClientLoop i now remaining answers fuel (k + 1) (u.disown other))) :
    Outcome.Alike (Server.disown other) (Server.Unaddressed i)
      (serverProcessClientLoop i now remaining answers (fuel + 1) k v)
      (serverProcessClientLoop i now remaining answers (fuel + 1) k w) := by
  rw [serverProcessClientLoop, serverProcessClientLoop]
  refine Outcome.Alike.handle (serverProcessClientRound_of_alike hround) (fun _ u hu => ?_) fun e u hu => ?_
  · rw [show (u.disown other).doneSomething = u.doneSomething from rfl]
    split_ifs
    · exact hrest u hu
    · obtain ⟨hsame, htime⟩ := prepareToWait_ofGuppy hu.client now remaining
      obtain ⟨hsame', -⟩ := prepareToWait_ofGuppy (s := u.server.disown other) hu.client now remaining
      show Outcome.Alike _ _
        (.ok (prepareToWait i now remaining u.server).2 (prepareToWait i now remaining u.server).1)
        (.ok (prepareToWait i now remaining (u.server.disown other)).2
          (prepareToWait i now remaining (u.server.disown other)).1)
      rw [hsame, hsame', htime other]
      exact .ok (s := u.server) hu _
  · exact (failureActions_alike hu answers.taken e).andThen fun _ t ht => .ok ht remaining

theorem serverProcessClientLoop_alike (now remaining : ℤ) (answers : VisitAnswers) (fuel k : ℕ)
    (h : v.Unaddressed i) :
    Outcome.Alike (Server.disown other) (Server.Unaddressed i)
      (serverProcessClientLoop i now remaining answers fuel k v)
      (serverProcessClientLoop i now remaining answers fuel k (v.disown other)) := by
  induction fuel generalizing k v with
  | zero => exact .hang
  | succ fuel ih =>
    have hidle : ({ v with doneSomething := false } : Visit).Unaddressed i := h
    exact serverProcessClientLoop_of_round (roundBlocks_alike hidle now (answers.rounds k))
      fun u hu => ih (k + 1) hu

/-- A visit of a client of Guppy that does not own the message goes the same way with another one in the
buffer. -/
theorem serverProcessClient_alike (h : s.Unaddressed i)
    (hflags : startFlags i (s.disown other) = startFlags i s) (now remaining : ℤ)
    (answers : VisitAnswers) (fuel : ℕ) :
    Outcome.Alike (Server.disown other) (Server.Unaddressed i)
      (serverProcessClient i now remaining answers fuel s)
      (serverProcessClient i now remaining answers fuel (s.disown other)) := by
  have hstart : startVisit i (s.disown other) = (startVisit i s).disown other := by
    rw [startVisit, hflags]
    rfl
  rw [serverProcessClient, serverProcessClient, hstart]
  exact serverProcessClientLoop_alike now remaining answers fuel 0 (v := startVisit i s) h

/-! ## Taking a message -/

/-- The chunk that an acknowledgement names, if it passes the check. -/
def Client.acknowledged (client : Client) (message : List UInt8) : Option ℕ :=
  if acknowledgementPasses client.response (strtoul message).1 (strtoul message).2 then
    some (strtoul message).1
  else none

/-- The message is the same with these bytes in the buffer: they begin with it, and an acknowledgement, which
is read beyond its end, names the same chunk. -/
structure Server.SaysAlike (i : ℕ) (bytes : List UInt8) (s : Server) : Prop where
  begins : bytes.take s.shortRequestMessageSize = s.shortRequestMessage.take s.shortRequestMessageSize
  acknowledged : s.messageIsRequest = true ∨
    (s.client i).acknowledged bytes = (s.client i).acknowledged s.shortRequestMessage

/-- The server with other bytes in the buffer, which belong to the owner of the message. -/
def Server.overhear (bytes : List UInt8) (s : Server) : Server := { s with shortRequestMessage := bytes }

theorem Server.SaysAlike.messageIsRequest (h : s.SaysAlike i bytes) :
    (s.overhear bytes).messageIsRequest = s.messageIsRequest := by
  by_cases hsize : s.shortRequestMessageSize ≥ guppyScheme.length
  · have hscheme := congrArg (List.take guppyScheme.length) h.begins
    rw [List.take_take, List.take_take, Nat.min_eq_left hsize] at hscheme
    rw [Server.messageIsRequest, Server.messageIsRequest, Server.overhear, hscheme]
  · have hsmall : decide (s.shortRequestMessageSize ≥ guppyScheme.length) = false := decide_eq_false hsize
    rw [Server.messageIsRequest, Server.messageIsRequest, Server.overhear, hsmall]
    rfl

/-- A message is taken in the same way, and is gone then. -/
theorem serverReceiveDataGuppy_alike {realloc : Realloc} (hclient : (v.server.client i).OfGuppy)
    (howner : v.server.shortRequestMessageOwner = some (v.server.pointer i))
    (hmessage : if v.server.messageIsRequest then
        (v.server.client i).HasRoom v.server.shortRequestMessage v.server.shortRequestMessageSize realloc
      else (v.server.client i).Acknowledged v.server.shortRequestMessage)
    (halike : v.server.SaysAlike i bytes) :
    ∃ w : Visit, w.Unaddressed i ∧ w.flags = v.flags ∧ serverReceiveDataGuppy i realloc v = .ok () w ∧
      serverReceiveDataGuppy i realloc { v with server := v.server.overhear bytes }
        = .ok () (w.disown (.only bytes)) := by
  have htaken : ∀ client : Client, client.OfGuppy → Visit.Unaddressed i { v with
      server := { v.server.setClient i client with
        shortRequestMessageSize := 0, shortRequestMessageOwner := none } } := fun client h =>
    ⟨by rw [← Server.client_setClient hclient.lt client] at h; exact h,
      fun hsome => Option.some_ne_none _ hsome.symm⟩
  have hrequest' := halike.messageIsRequest
  unfold serverReceiveDataGuppy
  rw [if_neg (not_not.mpr howner), if_neg (not_not.mpr (show
    (v.server.overhear bytes).shortRequestMessageOwner = some ((v.server.overhear bytes).pointer i)
      from howner))]
  dsimp only
  by_cases hrequest : v.server.messageIsRequest = true
  · rw [hrequest] at hrequest'
    rw [if_pos hrequest] at hmessage
    -- the same bytes join the request stream
    obtain ⟨reserved, stream, hreserve, hpush⟩ := hmessage
    rw [Server.messageIsRequest, Bool.and_eq_true, decide_eq_true_iff, decide_eq_true_iff]
      at hrequest hrequest'
    rw [if_pos hrequest, if_pos hrequest', Server.onClient, Server.onClient,
      show (v.server.overhear bytes).client i = v.server.client i from rfl,
      show (v.server.overhear bytes).shortRequestMessageSize = v.server.shortRequestMessageSize from rfl,
      show (v.server.overhear bytes).shortRequestMessage = bytes from rfl, halike.begins, hreserve]
    simp only [Outcome.mapError_ok, Outcome.andThen_ok, hpush, Outcome.mapState_ok]
    exact ⟨_, htaken { v.server.client i with requestStream := stream }
      ⟨hclient.message, hclient.ssl, hclient.operational⟩, rfl, rfl, rfl⟩
  · -- the same number is acknowledged, whatever follows it
    have hread := halike.acknowledged.resolve_left hrequest
    rw [if_neg hrequest] at hmessage
    obtain ⟨hpasses, value, hvalue⟩ := hmessage
    rw [Client.acknowledged, Client.acknowledged, if_pos hpasses] at hread
    have hpasses' : acknowledgementPasses (v.server.client i).response (strtoul bytes).1
        (strtoul bytes).2 = true := by
      by_contra hfails
      rw [if_neg hfails] at hread
      cases hread
    rw [if_pos hpasses'] at hread
    have hseq := Option.some.inj hread
    rw [← hrequest'] at hrequest
    have hrequest'' := hrequest
    rw [hrequest'] at hrequest''
    rw [Server.messageIsRequest, Bool.and_eq_true, decide_eq_true_iff, decide_eq_true_iff]
      at hrequest hrequest''
    rw [if_neg hrequest, if_neg hrequest'', show (v.server.overhear bytes).shortRequestMessage = bytes
      from rfl, show (v.server.overhear bytes).client i = v.server.client i from rfl, if_pos hpasses,
      if_pos hpasses', hseq, Server.onClient, Server.onClient,
      show (v.server.overhear bytes).client i = v.server.client i from rfl, acknowledgeChunk]
    simp only [hvalue, Outcome.andThen_ok, Outcome.mapState_ok]
    exact ⟨_, htaken { v.server.client i with
      responseQueue := (v.server.client i).responseQueue.write value [255] }
        ⟨hclient.message, hclient.ssl, hclient.operational⟩, rfl, rfl, rfl⟩

/-- The receipt of a message that is taken. -/
theorem roundReceive_takes (now : ℤ) {answers : ReceiveTrafficAnswers} {w : Visit}
    (hopen : v.flags.exhausted = false ∧ v.flags.closed = false ∧ getMakesSenseToReceive v.server i = true)
    (hclient : (v.server.client i).OfGuppy)
    (hreceived : serverReceiveDataGuppy i answers.stream.realloc { v with doneSomething := true }
      = .ok () w) :
    roundReceive i now answers v = afterReceive i { w with
      server := w.server.setClient i ((w.server.client i).noteNotEmpty now)
      flags := { w.flags with exhausted := true } } := by
  rw [roundReceive_eq, if_pos hopen, serverReceiveTraffic, if_pos hclient.message, hreceived]
  rfl

/-- The first round of a visit that takes the message. -/
theorem roundBlocks_addressed {answers : RoundAnswers} (hclient : (s.client i).OfGuppy)
    (howner : s.shortRequestMessageOwner = some (s.pointer i))
    (htakes : TakesMessage i now answers.receive.stream.realloc s) (halike : s.SaysAlike i bytes) :
    Outcome.Alike (Visit.disown (.only bytes)) (Visit.Unaddressed i)
      (roundBlocks i now answers ⟨s, startFlags i s, true, false⟩)
      (roundBlocks i now answers ⟨s.overhear bytes, startFlags i s, true, false⟩) := by
  have hfirst : roundFirst i now ⟨s, startFlags i s, true, false⟩
      = .ok () ⟨s, startFlags i s, false, false⟩ :=
    roundFirst_of_live fun _ => ⟨htakes.pollErr, htakes.pollHup, htakes.timeouts⟩
  have hfirst' : roundFirst i now ⟨s.overhear bytes, startFlags i s, true, false⟩
      = .ok () ⟨s.overhear bytes, startFlags i s, false, false⟩ :=
    roundFirst_of_live fun _ => ⟨htakes.pollErr, htakes.pollHup, htakes.timeouts⟩
  obtain ⟨w, hw, -, hreceived, hreceived'⟩ := serverReceiveDataGuppy_alike
    (v := ⟨s, startFlags i s, false, true⟩) hclient howner htakes.message halike
  have hreceive := roundReceive_takes (v := ⟨s, startFlags i s, false, false⟩) now
    ⟨htakes.ready, rfl, htakes.receives⟩ hclient hreceived
  have hreceive' := roundReceive_takes (v := ⟨s.overhear bytes, startFlags i s, false, false⟩) now
    ⟨htakes.ready, rfl, htakes.receives⟩ hclient hreceived'
  -- behind the receipt the message belongs to nobody
  have hnoted : ({ w with
      server := w.server.setClient i ((w.server.client i).noteNotEmpty now)
      flags := { w.flags with exhausted := true } } : Visit).Unaddressed i :=
    Server.Unaddressed.setClient hw _ (hw.client.noteNotEmpty now)
  rw [roundBlocks_eq, roundBlocks_eq, hfirst, hfirst', Outcome.andThen_ok, Outcome.andThen_ok, hreceive,
    hreceive']
  exact (afterReceive_alike hnoted).andThen fun finalized u hu => afterBlocks_alike hu now answers finalized

/-- A visit that takes the message in its first round goes the same way with other bytes behind it. -/
theorem serverProcessClient_addressed (hclient : (s.client i).OfGuppy)
    (howner : s.shortRequestMessageOwner = some (s.pointer i)) (remaining : ℤ) {answers : VisitAnswers}
    (htakes : TakesMessage i now (answers.rounds 0).receive.stream.realloc s) (halike : s.SaysAlike i bytes)
    (fuel : ℕ) :
    Outcome.Alike (Server.disown (.only bytes)) (Server.Unaddressed i)
      (serverProcessClient i now remaining answers fuel s)
      (serverProcessClient i now remaining answers fuel (s.overhear bytes)) := by
  rcases fuel with _ | fuel
  · exact .hang
  · exact serverProcessClientLoop_of_round (roundBlocks_addressed hclient howner htakes halike)
      fun u hu => serverProcessClientLoop_alike now remaining answers fuel 1 hu

/-! ## Clients that rest -/

/-- A client is client `i` but for two times, when its request stream was last not empty and its response
stream not full, and the same timeouts apply to it. -/
structure Server.Noted (i : ℕ) (s : Server) (c : Client) : Prop where
  times : ∃ notEmpty notFull, c =
    { s.client i with lastRequestStreamNotEmpty := notEmpty, lastResponseStreamNotFull := notFull }
  timeouts : clientTimeouts (s.setClient i c) i = clientTimeouts s i

/-- A time may be noted while it does not count. -/
theorem Server.noted (hi : i < s.clients.elements.length) {notEmpty notFull : ℤ}
    (hempty : (s.client i).requestStream.size = 0 → notEmpty = (s.client i).lastRequestStreamNotEmpty)
    (hfull : clientResponseStreamSize s i ≥ maxResponseStreamSize →
      notFull = (s.client i).lastResponseStreamNotFull) :
    s.Noted i { s.client i with
      lastRequestStreamNotEmpty := notEmpty, lastResponseStreamNotFull := notFull } := by
  refine ⟨⟨notEmpty, notFull, rfl⟩, ?_⟩
  have hsize : clientResponseStreamSize (s.setClient i { s.client i with
      lastRequestStreamNotEmpty := notEmpty, lastResponseStreamNotFull := notFull }) i
      = clientResponseStreamSize s i := by
    rw [clientResponseStreamSize, Server.client_setClient hi]
    rfl
  unfold clientTimeouts
  rw [hsize, Server.client_setClient hi]
  dsimp only
  congr 2
  · congr 1
    split_ifs with hzero
    · rw [hempty hzero]
    · rfl
  · split_ifs with hmax
    · rw [hfull hmax]
    · rfl

theorem Server.Noted.refl (hi : i < s.clients.elements.length) : s.Noted i (s.client i) :=
  Server.noted hi (fun _ => rfl) fun _ => rfl

theorem Server.noted_noteNotEmpty (hi : i < s.clients.elements.length) (now : ℤ) :
    s.Noted i ((s.client i).noteNotEmpty now) := by
  unfold Client.noteNotEmpty
  split_ifs with hsize
  · exact Server.noted hi (fun hzero => absurd hzero hsize.ne') fun _ => rfl
  · exact .refl hi

/-- What `server_send_traffic` does to a client when it sends nothing. -/
def Server.noteNotFull (i : ℕ) (now : ℤ) (s : Server) : Client :=
  if clientResponseStreamSize s i < maxResponseStreamSize then
    { s.client i with lastResponseStreamNotFull := now }
  else s.client i

theorem Server.noted_noteNotFull (hi : i < s.clients.elements.length) (now : ℤ) :
    s.Noted i (s.noteNotFull i now) := by
  unfold Server.noteNotFull
  split_ifs with hsize
  · exact Server.noted hi (fun _ => rfl) fun hfull => absurd hsize (Nat.not_lt.mpr hfull)
  · exact .refl hi

/-- Sending would do nothing for client `i` but note the time. -/
def Server.NothingDue (i : ℕ) (now : ℤ) (s : Server) : Prop :=
  ∀ (answers : SendAnswers) (v : Visit), v.server = s → v.flags.saturated = false →
    serverSendTraffic i now answers v = .ok () { v with
      server := s.setClient i (s.noteNotFull i now)
      flags := { v.flags with saturated := true } }

/-- All that client `i` has received is parsed, and nothing is due to be sent to it. -/
structure Server.Rests (i : ℕ) (now : ℤ) (s : Server) : Prop where
  input : getMakesSenseToParse s i = false
  output : getMakesSenseToSend s i = true → s.NothingDue i now

theorem Server.Rests.disown (h : s.Rests i now) (hs : s.Unaddressed i) (other : Elsewhere) :
    (s.disown other).Rests i now := by
  refine ⟨h.input, fun hsense answers v hv hflags => ?_⟩
  have hsent := h.output hsense answers { v with server := s } rfl hflags
  have halike : Outcome.Alike (Visit.disown other) (Visit.Unaddressed i) _ _ :=
    serverSendTraffic_alike (v := { v with server := s }) hs now answers
  have hvisit : v = Visit.disown other { v with server := s } := by
    rw [Visit.disown, ← hv]
  rw [hvisit, halike.of_eq_ok hsent]
  rfl

/-- What makes sense does not depend on these times. -/
theorem Server.Noted.makesSense {c : Client} (h : s.Noted i c) (hi : i < s.clients.elements.length) :
    getMakesSenseToReceive (s.setClient i c) i = getMakesSenseToReceive s i ∧
      getMakesSenseToParse (s.setClient i c) i = getMakesSenseToParse s i ∧
      clientResponseStreamSize (s.setClient i c) i = clientResponseStreamSize s i := by
  obtain ⟨notEmpty, notFull, rfl⟩ := h.times
  have hsize : clientResponseStreamSize (s.setClient i { s.client i with
      lastRequestStreamNotEmpty := notEmpty, lastResponseStreamNotFull := notFull }) i
      = clientResponseStreamSize s i := by
    rw [clientResponseStreamSize, Server.client_setClient hi]
    rfl
  refine ⟨?_, ?_, hsize⟩
  · rw [getMakesSenseToReceive, getMakesSenseToReceive, hsize, Server.client_setClient hi]
  · rw [getMakesSenseToParse, getMakesSenseToParse, hsize, Server.client_setClient hi]

theorem Server.Noted.ofGuppy {c : Client} (h : s.Noted i c) (hclient : (s.client i).OfGuppy) :
    c.OfGuppy := by
  obtain ⟨notEmpty, notFull, rfl⟩ := h.times
  exact ⟨hclient.message, hclient.ssl, hclient.operational⟩

/-- Once nothing more is received for a client that rests, and nothing sent, its visit is over. -/
theorem Server.Rests.ends (h : s.Rests i now) (hs : s.Unaddressed i) {c : Client} (hc : s.Noted i c)
    (flags : ConnectionFlags) (hreceive : flags.exhausted = true ∨ getMakesSenseToReceive s i = false)
    (hsend : flags.saturated = true ∨ getMakesSenseToSend s i = false) (busy : Bool) (remaining : ℤ)
    (answers : VisitAnswers) (fuel k : ℕ) :
    ∃ remaining', serverProcessClientLoop i now remaining answers (fuel + 1) k
      ⟨s.setClient i c, flags, false, busy⟩ = .ok remaining' (s.setClient i c) := by
  obtain ⟨hsense, hparse, hsize⟩ := hc.makesSense hs.client.lt
  have hquiet : NothingToDo i now ⟨s.setClient i c, flags, false, busy⟩ := by
    refine ⟨fun hfirst => absurd hfirst Bool.false_ne_true, ?_, hparse.trans h.input, ?_⟩
    · exact hreceive.imp_right fun hnot => .inr (hsense.trans hnot)
    · refine hsend.imp_right fun hnot => ?_
      rw [getMakesSenseToSend] at hnot ⊢
      rw [hsize, hnot]
  have hclient : ((s.setClient i c).client i).OfGuppy := (hs.setClient c (hc.ofGuppy hs.client)).client
  have hends := serverProcessClientLoop_quiet hquiet remaining answers fuel k
  rw [(prepareToWait_ofGuppy hclient now remaining).1] at hends
  exact ⟨_, hends⟩

/-- A visit that returns does so with more rounds, too. -/
theorem serverProcessClientLoop_mono {remaining remaining' : ℤ} {answers : VisitAnswers} {fuel k : ℕ}
    {t : Server} (h : serverProcessClientLoop i now remaining answers fuel k v = .ok remaining' t) :
    serverProcessClientLoop i now remaining answers (fuel + 1) k v = .ok remaining' t := by
  induction fuel generalizing k v with
  | zero => cases h
  | succ fuel ih =>
    rw [serverProcessClientLoop] at h ⊢
    cases hround : serverProcessClientRound i now (answers.rounds k) { v with doneSomething := false } with
    | ok a w =>
      rw [hround, Outcome.handle_ok] at h
      rw [Outcome.handle_ok]
      split_ifs at h ⊢
      · exact ih h
      · exact h
    | error e w =>
      rw [hround] at h
      exact h
    | hang =>
      rw [hround] at h
      cases h

theorem roundFirst_lives (hlive : s.givesUp i now = none) :
    roundFirst i now { startVisit i s with doneSomething := false }
      = .ok () ⟨s, startFlags i s, false, false⟩ := by
  have hfirst : roundFirst i now { startVisit i s with doneSomething := false }
      = match s.givesUp i now with
        | some e => .error e ⟨s, startFlags i s, false, false⟩
        | none => .ok () ⟨s, startFlags i s, false, false⟩ := roundFirst_eq i now _
  rwa [hlive] at hfirst

namespace Server.Rests

/-- The first round finds out that the message is for somebody else, and sends nothing for that. -/
theorem round_hears (hrests : s.Rests i now) (h : s.Unaddressed i) (hlive : s.givesUp i now = none)
    (hexhausted : (startFlags i s).exhausted = false) (hreceives : getMakesSenseToReceive s i = true)
    (answers : RoundAnswers) :
    serverProcessClientRound i now answers { startVisit i s with doneSomething := false }
      = .ok () ⟨s.setClient i ((s.client i).noteNotEmpty now),
          { startFlags i s with saturated := true, exhausted := true }, false, true⟩ := by
  set noted := (s.client i).noteNotEmpty now
  have hnoted : s.Noted i noted := Server.noted_noteNotEmpty h.client.lt now
  set flags : ConnectionFlags := { startFlags i s with saturated := true, exhausted := true }
  have hparse := (hnoted.makesSense h.client.lt).2.1.trans hrests.input
  have hoperational := (h.setClient noted (hnoted.ofGuppy h.client)).client.operational
  have hterminated : clientTerminated i ⟨s.setClient i noted, flags, false, true⟩ = false := by
    simp [clientTerminated, flags, startFlags, hoperational]
  have hreceived : roundReceive i now answers.receive ⟨s, startFlags i s, false, false⟩
      = .ok false ⟨s.setClient i noted, flags, false, true⟩ := by
    rw [roundReceive_eq, if_pos ⟨hexhausted, rfl, hreceives⟩,
      serverReceiveTraffic_unaddressed (v := ⟨s, startFlags i s, false, true⟩) h, Outcome.andThen_ok]
    dsimp only
    rw [afterReceive, hterminated, if_neg Bool.false_ne_true]
  -- the flag that is set for the message keeps the round from sending
  rw [serverProcessClientRound, roundBlocks_eq, roundFirst_lives hlive, Outcome.andThen_ok, hreceived,
    Outcome.andThen_ok, afterBlocks, if_neg Bool.false_ne_true, roundParse, hparse,
    if_neg Bool.false_ne_true, Outcome.andThen_ok, roundSend,
    if_neg (fun hboth => Bool.noConfusion (hboth.1 : true = false)), Outcome.handle_ok]

/-- The first round sends nothing, since nothing is due. -/
theorem round_sends (hrests : s.Rests i now) (h : s.Unaddressed i) (hlive : s.givesUp i now = none)
    (hreceives : ¬ ((startFlags i s).exhausted = false ∧ getMakesSenseToReceive s i = true))
    (hsense : getMakesSenseToSend s i = true) (answers : RoundAnswers) :
    serverProcessClientRound i now answers { startVisit i s with doneSomething := false }
      = .ok () ⟨s.setClient i (s.noteNotFull i now), { startFlags i s with saturated := true }, false,
          true⟩ := by
  have hunsaturated : (startFlags i s).saturated = false := by
    rw [startFlags]
    dsimp only
    rw [Bool.eq_false_iff.mpr h.client.connection]
    rfl
  have hsent := hrests.output hsense answers.send ⟨s, startFlags i s, false, true⟩ rfl hunsaturated
  set client := s.noteNotFull i now
  have hclient : s.Noted i client := Server.noted_noteNotFull h.client.lt now
  -- something is pending, so the client is not finalized
  have hsize : clientResponseStreamSize (s.setClient i client) i ≠ 0 := by
    rw [(hclient.makesSense h.client.lt).2.2]
    exact Nat.pos_iff_ne_zero.mp (of_decide_eq_true hsense)
  have hterminates : serverTerminates i (s.setClient i client) = false := by
    simp [serverTerminates, hsize]
  rw [serverProcessClientRound, roundBlocks_eq, roundFirst_lives hlive, Outcome.andThen_ok,
    roundReceive_eq, if_neg fun hopen => hreceives ⟨hopen.1, hopen.2.2⟩,
    Outcome.andThen_ok, afterBlocks, if_neg Bool.false_ne_true, roundParse, hrests.input,
    if_neg Bool.false_ne_true, Outcome.andThen_ok, roundSend, if_pos ⟨hunsaturated, hsense⟩, hsent,
    Outcome.andThen_ok]
  dsimp only
  rw [hterminates, if_neg Bool.false_ne_true, Outcome.handle_ok]

/-- The first round has nothing to do. -/
theorem round_idles (hrests : s.Rests i now) (hlive : s.givesUp i now = none)
    (hreceives : ¬ ((startFlags i s).exhausted = false ∧ getMakesSenseToReceive s i = true))
    (hsense : ¬ getMakesSenseToSend s i = true) (answers : RoundAnswers) :
    serverProcessClientRound i now answers { startVisit i s with doneSomething := false }
      = .ok () ⟨s, startFlags i s, false, false⟩ := by
  rw [serverProcessClientRound, roundBlocks_eq, roundFirst_lives hlive, Outcome.andThen_ok,
    roundReceive_eq, if_neg fun hopen => hreceives ⟨hopen.1, hopen.2.2⟩,
    Outcome.andThen_ok, afterBlocks, if_neg Bool.false_ne_true, roundParse, hrests.input,
    if_neg Bool.false_ne_true, Outcome.andThen_ok, roundSend, if_neg fun hboth => hsense hboth.2,
    Outcome.handle_ok]

end Server.Rests

/-- A client that rests, and is not given up, is the same after its visit but for the times, whether or not
`poll()` has reported a message. -/
theorem serverProcessClient_rests (h : s.Unaddressed i) (hrests : s.Rests i now)
    (hlive : s.givesUp i now = none) (remaining : ℤ) (answers : VisitAnswers) (fuel : ℕ) :
    ∃ remaining' c, s.Noted i c ∧
      serverProcessClient i now remaining answers (fuel + 2) s = .ok remaining' (s.setClient i c) := by
  -- a round that does something is followed by one that does nothing
  by_cases hreceives : (startFlags i s).exhausted = false ∧ getMakesSenseToReceive s i = true
  · have hnoted : s.Noted i ((s.client i).noteNotEmpty now) :=
      Server.noted_noteNotEmpty h.client.lt now
    obtain ⟨remaining', hends⟩ := hrests.ends h hnoted { startFlags i s with
      saturated := true, exhausted := true } (.inl rfl) (.inl rfl) true remaining answers fuel 1
    refine ⟨remaining', _, hnoted, ?_⟩
    rw [serverProcessClient, serverProcessClientLoop,
      hrests.round_hears h hlive hreceives.1 hreceives.2, Outcome.handle_ok, if_pos rfl]
    exact hends
  have hnothing : (startFlags i s).exhausted = true ∨ getMakesSenseToReceive s i = false := by
    rwa [not_and_or, Bool.not_eq_false, Bool.not_eq_true] at hreceives
  by_cases hsense : getMakesSenseToSend s i = true
  · have hnoted : s.Noted i (s.noteNotFull i now) := Server.noted_noteNotFull h.client.lt now
    obtain ⟨remaining', hends⟩ := hrests.ends h hnoted { startFlags i s with saturated := true } hnothing
      (.inl rfl) true remaining answers fuel 1
    refine ⟨remaining', _, hnoted, ?_⟩
    rw [serverProcessClient, serverProcessClientLoop, hrests.round_sends h hlive hreceives hsense,
      Outcome.handle_ok, if_pos rfl]
    exact hends
  · refine ⟨(prepareToWait i now remaining s).2, s.client i, .refl h.client.lt, ?_⟩
    rw [serverProcessClient, serverProcessClientLoop, hrests.round_idles hlive hreceives hsense,
      Outcome.handle_ok, if_neg Bool.false_ne_true, Server.setClient_client]
    exact congrArg (Outcome.ok _) (prepareToWait_ofGuppy h.client now remaining).1

/-- What the label `failure` does to a client that owns no message. -/
theorem failureActions_unaddressed (h : s.Unaddressed i) (taken : ℕ) (e : ExError) :
    (failureActions i taken e s).Meets False
      (fun _ t => e.has partialEefDie = false ∧ t.client i
        = if e.has partialEefShutdown || e.has partialEefClose then (s.client i).finalized else s.client i)
      fun _ _ => e.has partialEefDie = true := by
  have hfixed : (sendFixed i taken e s).Unaddressed i ∧ (sendFixed i taken e s).client i = s.client i := by
    unfold sendFixed
    dsimp only
    split_ifs
    · exact ⟨⟨h.client, h.notOwner⟩, rfl⟩
    · exact ⟨⟨h.client, h.notOwner⟩, rfl⟩
    · exact ⟨h, rfl⟩
  -- shutdown and close finalize the client, and once is as good as twice
  have hend : ∀ (p : Prop) [Decidable p] (t : Server), t.Unaddressed i →
      (if p then finalizeClient i t else t).Unaddressed i ∧
        (if p then finalizeClient i t else t).client i
          = if p then (t.client i).finalized else t.client i := by
    intro p _ t ht
    split_ifs
    · have hlt := ht.client.lt
      rw [(finalizeClient_unaddressed ht).1, Server.client_setClient hlt]
      exact ⟨ht.setClient _ ⟨ht.client.message, rfl, ht.client.operational⟩, rfl⟩
    · exact ⟨ht, rfl⟩
  obtain ⟨hshutdown, hclient⟩ := hend (e.has partialEefShutdown = true) _ hfixed.1
  obtain ⟨-, hclient'⟩ := hend (e.has partialEefClose = true) _ hshutdown
  rw [hclient, hfixed.2] at hclient'
  have hprinted : ∀ t : Server,
      (if e.has partialEefLog = true then t.emit (.errorPrinted e.error) else t).client i = t.client i := by
    intro t
    split_ifs
    · rfl
    · rfl
  unfold failureActions
  dsimp only
  by_cases hdie : e.has partialEefDie = true
  · rw [if_pos hdie]
    exact hdie
  · rw [if_neg hdie]
    refine ⟨Bool.eq_false_iff.mpr hdie, ?_⟩
    rw [hprinted, hclient']
    cases e.has partialEefShutdown <;> cases e.has partialEefClose <;> rfl

/-- A client that is given up is so in the first round. -/
theorem serverProcessClient_givesUp (h : s.Unaddressed i) {e : ExError} (hgives : s.givesUp i now = some e)
    (remaining : ℤ) (answers : VisitAnswers) (fuel : ℕ) :
    serverProcessClient i now remaining answers (fuel + 1) s
      = (failureActions i answers.taken e s).andThen fun _ t => .ok remaining t := by
  have hfirst : roundFirst i now { startVisit i s with doneSomething := false }
      = match s.givesUp i now with
        | some e => .error e ⟨s, startFlags i s, false, false⟩
        | none => .ok () ⟨s, startFlags i s, false, false⟩ := roundFirst_eq i now _
  rw [hgives] at hfirst
  have hrecovers : roundRecovers i e s ≠ true := by
    rw [roundRecovers, h.client.ssl]
    exact Bool.false_ne_true
  have hround : serverProcessClientRound i now (answers.rounds 0)
      { startVisit i s with doneSomething := false } = .error e ⟨s, startFlags i s, false, false⟩ := by
    rw [serverProcessClientRound, roundBlocks_eq, hfirst, Outcome.andThen_error, Outcome.handle_error,
      if_neg hrecovers]
  rw [serverProcessClient, serverProcessClientLoop, hround, Outcome.handle_error]

/-! ## Alone -/

theorem getD_modify_same (f : Poll → Poll) (elements : List Poll) (k l : ℕ) {α : Type} (g : Poll → α)
    (hsame : ∀ poll, g (f poll) = g poll) :
    g ((elements.modify k f).getD l .zero) = g (elements.getD l .zero) := by
  rw [List.getD_eq_getElem?_getD, List.getD_eq_getElem?_getD, List.getElem?_modify]
  rcases elements[l]? with _ | poll
  · rfl
  · by_cases hkl : k = l
    · simp [hkl, hsame]
    · simp [hkl]

/-- Other bytes, and `poll()` has reported no message at socket `k`. -/
def Elsewhere.unpolled (k : ℕ) (bytes : List UInt8) : Elsewhere where
  bytes := bytes
  polls buffer := { buffer with
    elements := buffer.elements.modify k fun poll => { poll with revents.pollIn := false } }
  pollErr _ _ := getD_modify_same _ _ _ _ (fun poll => poll.revents.pollErr) fun _ => rfl
  pollHup _ _ := getD_modify_same _ _ _ _ (fun poll => poll.revents.pollHup) fun _ => rfl

/-- The server as client `i` would find it if nobody else had sent a message: if it owns the message, these
bytes are in the buffer, and if it does not, there is no message, and `poll()` has reported none. -/
def Server.alone (i : ℕ) (bytes : List UInt8) (s : Server) : Server :=
  if s.shortRequestMessageOwner = some (s.pointer i) then s.overhear bytes
  else s.disown (.unpolled (pollIndex s i) bytes)

/-- Where `poll()` has reported nothing there is nothing to be taken back. -/
theorem startFlags_unpolled (h : (s.poll (pollIndex s i)).revents.pollIn = false) (bytes : List UInt8) :
    startFlags i (s.disown (.unpolled (pollIndex s i) bytes)) = startFlags i s := by
  have hpoll : (s.disown (.unpolled (pollIndex s i) bytes)).poll (pollIndex s i)
      = { s.poll (pollIndex s i) with revents.pollIn := false } := by
    show ((s.polls.elements.modify _ _).getD _ Poll.zero) = _
    rw [Server.poll, List.getD_eq_getElem?_getD, List.getD_eq_getElem?_getD, List.getElem?_modify]
    rcases s.polls.elements[pollIndex s i]? with _ | poll
    · rfl
    · simp
  have hindex : pollIndex (s.disown (.unpolled (pollIndex s i) bytes)) i = pollIndex s i := rfl
  rw [startFlags, startFlags, hindex, hpoll, Server.client_disown, h]

/-- A visit of a client that rests leaves it as it is but for the times, or ends it, whether or not there is a
message for somebody else. -/
theorem serverProcessClient_restsAlone (h : s.Unaddressed i) (hrests : s.Rests i now)
    {remaining remaining' : ℤ} {answers : VisitAnswers} {fuel : ℕ} {t : Server}
    (hreturns : serverProcessClient i now remaining answers fuel s = .ok remaining' t) (other : Elsewhere) :
    (s.Noted i (t.client i) ∨ (t.client i).dead = true) ∧
      ∃ remaining'' t', serverProcessClient i now remaining answers 2 (s.disown other) = .ok remaining'' t' ∧
        (t'.client i = t.client i ∨ s.Noted i (t'.client i) ∧ s.Noted i (t.client i)) := by
  have hother := h.disown other
  have hgives' := Server.givesUp_disown other s i now
  have hmore : serverProcessClient i now remaining answers (fuel + 2) s = .ok remaining' t :=
    serverProcessClientLoop_mono (serverProcessClientLoop_mono hreturns)
  rcases hgives : s.givesUp i now with _ | e
  · obtain ⟨r, c, hc, hrested⟩ := serverProcessClient_rests h hrests hgives remaining answers fuel
    obtain ⟨r', c', hc', hrested'⟩ := serverProcessClient_rests hother (hrests.disown h other)
      (hgives'.trans hgives) remaining answers 0
    obtain ⟨-, rfl⟩ := Outcome.ok.inj (hrested.symm.trans hmore)
    rw [Server.client_setClient h.client.lt]
    refine ⟨.inl hc, r', _, hrested', .inr ⟨?_, hc⟩⟩
    rw [Server.client_setClient hother.client.lt]
    exact ⟨hc'.times, hc'.timeouts⟩
  · rw [serverProcessClient_givesUp h hgives] at hmore
    obtain ⟨_, u, hfails, hend⟩ := Outcome.andThen_eq_ok.mp hmore
    obtain ⟨-, rfl⟩ := Outcome.ok.inj hend
    obtain ⟨hlives, hclient⟩ := (failureActions_unaddressed h answers.taken e).of_eq_ok hfails
    have hmeets := failureActions_unaddressed hother answers.taken e
    obtain ⟨_, t', hfails', -, hclient'⟩ := ((Outcome.meets_false.mp hmeets).mono (fun _ _ => id)
      fun _ _ hdies => Bool.false_ne_true (hlives.symm.trans hdies)).exists_ok
    refine ⟨?_, remaining, t', ?_, .inl (hclient'.trans hclient.symm)⟩
    · rw [hclient]
      split_ifs
      · exact .inr rfl
      · exact .inl (.refl h.client.lt)
    · rw [serverProcessClient_givesUp hother (hgives'.trans hgives), hfails']
      rfl

/-- A visit of a client of Guppy does to it what it would do if nobody else had sent a message: if the client
owns the message it takes it, and these bytes say the same; and if it does not, it rests when `poll()` has
reported one. -/
theorem serverProcessClient_alone (hclient : (s.client i).OfGuppy) {remaining remaining' : ℤ}
    {answers : VisitAnswers} {fuel : ℕ} {t : Server}
    (haddressed : s.shortRequestMessageOwner = some (s.pointer i) →
      TakesMessage i now (answers.rounds 0).receive.stream.realloc s ∧ s.SaysAlike i bytes)
    (hrests : s.shortRequestMessageOwner ≠ some (s.pointer i) →
      (s.poll (pollIndex s i)).revents.pollIn = true → s.Rests i now)
    (hreturns : serverProcessClient i now remaining answers fuel s = .ok remaining' t) :
    ∃ fuel' remaining'' t', serverProcessClient i now remaining answers fuel' (s.alone i bytes)
      = .ok remaining'' t' ∧
        (t'.client i = t.client i ∨ s.Noted i (t'.client i) ∧ s.Noted i (t.client i)) := by
  unfold Server.alone
  by_cases howner : s.shortRequestMessageOwner = some (s.pointer i)
  · rw [if_pos howner]
    obtain ⟨htakes, halike⟩ := haddressed howner
    exact ⟨fuel, remaining', _, (serverProcessClient_addressed hclient howner remaining htakes halike
      fuel).of_eq_ok hreturns, .inl rfl⟩
  · rw [if_neg howner]
    by_cases hpolled : (s.poll (pollIndex s i)).revents.pollIn = true
    · exact ⟨2, (serverProcessClient_restsAlone ⟨hclient, howner⟩ (hrests howner hpolled) hreturns _).2⟩
    · have hflags := startFlags_unpolled (Bool.eq_false_iff.mpr hpolled) bytes
      exact ⟨fuel, remaining', _, (serverProcessClient_alike ⟨hclient, howner⟩ hflags now remaining answers
        fuel).of_eq_ok hreturns, .inl rfl⟩

/-- A visit leaves a client of Guppy as it was made, if it takes the message it owns. -/
theorem serverProcessClient_ofGuppy (hclient : (s.client i).OfGuppy) (now remaining : ℤ)
    (answers : VisitAnswers) (fuel : ℕ)
    (htakes : s.shortRequestMessageOwner = some (s.pointer i) →
      TakesMessage i now (answers.rounds 0).receive.stream.realloc s) :
    (serverProcessClient i now remaining answers fuel s).Keeps fun t => (t.client i).OfGuppy := by
  by_cases howner : s.shortRequestMessageOwner = some (s.pointer i)
  · have halike : s.SaysAlike i s.shortRequestMessage := ⟨rfl, .inr rfl⟩
    exact (serverProcessClient_addressed hclient howner remaining (htakes howner) halike fuel).keeps.mono
      fun _ ht => ht.client
  · have hflags : startFlags i (s.disown (.only [])) = startFlags i s := rfl
    exact (serverProcessClient_alike ⟨hclient, howner⟩ hflags now remaining answers fuel).keeps.mono
      fun _ ht => ht.client

end Twinkleshine
