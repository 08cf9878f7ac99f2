import Twinkleshine.Server.Attendance
import Twinkleshine.Server.Owner

/-!
# The request stream of a client that is not encrypted

The request stream grows when its client is received from, by what there is room for, or by a datagram;
it shrinks when a request is answered, and is given up when the client is finalized. Nothing else
touches it. `serverProcessClient_bounded` says that a visit keeps it within `MAX_REQUEST_STREAM_SIZE`,
if the datagram the client may own fits. Reference: `source/server/receive.c`.
-/

namespace Twinkleshine

open Library

variable {i n : ℕ} {s t : Server} {v : Visit}

/-! ## Output alone -/

/-- Only the output of a client changed. -/
structure Client.OutputOnly (c d : Client) : Prop where
  requestStream : d.requestStream = c.requestStream
  progress : d.progress = c.progress
  ssl : d.ssl = c.ssl
  cryptographyState : d.cryptographyState = c.cryptographyState
  responses : c.responseStream.Valid → d.responseStream.Valid

theorem Client.OutputOnly.refl (c : Client) : c.OutputOnly c := ⟨rfl, rfl, rfl, rfl, id⟩

theorem Client.OutputOnly.trans {c d e : Client} (h : c.OutputOnly d) (h' : d.OutputOnly e) :
    c.OutputOnly e :=
  ⟨h'.requestStream.trans h.requestStream, h'.progress.trans h.progress, h'.ssl.trans h.ssl,
    h'.cryptographyState.trans h.cryptographyState, fun hc => h'.responses (h.responses hc)⟩

/-- What holds of a client, and of what is written in its place, holds of it afterwards. -/
theorem Server.client_setClient_of {P : Client → Prop} (hs : P (s.client i)) {client : Client}
    (h : P client) : P ((s.setClient i client).client i) := by
  by_cases hi : i < s.clients.elements.length
  · rwa [Server.client_setClient hi]
  · rwa [Server.setClient_of_length_le (Nat.not_lt.mp hi)]

theorem Server.onClient_keeps {P : Client → Prop} {ε α : Type} (hs : P (s.client i))
    {f : Client → Outcome ε Client α} (h : (f (s.client i)).Keeps P) :
    (s.onClient i f).Keeps fun t => P (t.client i) :=
  h.mapState fun _ hclient => Server.client_setClient_of hs hclient

theorem sendValue_outputOnly {advance : ℕ → Server → Server}
    (hadvance : ∀ n t, (advance n t).clients = t.clients) (now : ℤ)
    (answers : SendAnswer × SendAnswer) (stream : ConstantValue) :
    (sendValue i now answers advance stream v).Keeps fun w =>
      (v.server.client i).OutputOnly (w.server.client i) := by
  have hsame : ∀ (n : ℕ) (t : Server), (advance n t).client i = t.client i := fun n t => by
    rw [Server.client, Server.client, hadvance]
  unfold sendValue
  split_ifs
  · have hsent : ∀ r : Sending, (v.server.client i).OutputOnly
        ((v.afterStream i advance r).server.client i) := fun r => by
      have hclient : (v.afterStream i advance r).server.client i = v.server.client i := hsame _ _
      exact hclient ▸ .refl _
    unfold sendStream
    rcases serverSendStream answers stream with ⟨_, r⟩ | ⟨e, r⟩ | _
    · exact hsent r
    · exact hsent r
    · exact trivial
  · have hsent : ∀ (chunks : MutableValue) (lastChunkSent : ℤ) (r : Messaging),
        (v.server.client i).OutputOnly ((v.server.afterMessage i chunks lastChunkSent r).client i) :=
      fun chunks lastChunkSent r =>
        Server.client_setClient_of (P := (v.server.client i).OutputOnly) (.refl _)
          ⟨rfl, rfl, rfl, rfl, id⟩
    unfold sendMessage
    dsimp only
    rcases intLength _ with _ | length
    · exact trivial
    rcases (ringGet (v.server.client i).responseQueue _ false).mapError (extend .closeLogDie) with
      e | chunks
    · exact Client.OutputOnly.refl _
    simp only [Outcome.ofOption_some, Outcome.ofExcept_ok, Outcome.andThen_ok]
    rcases serverSendMessage stream _ _ _ _ with ⟨_, r⟩ | ⟨e, r⟩ | _
    · show (v.server.client i).OutputOnly ((advance _ _).client i)
      rw [hsame]
      exact hsent chunks _ r
    · exact hsent chunks _ r
    · exact trivial

theorem serverPopResponses_outputOnly {c : Client} {sent : ℕ} {now : ℤ} {f : Error → ExError}
    (h : c.OutputOnly (v.server.client i)) :
    (v.onServer fun t => (serverPopResponses i now sent t).mapError f).Keeps fun w =>
      c.OutputOnly (w.server.client i) := by
  have hpops : ((serverPopResponses i now sent v.server).mapError f).Keeps fun t =>
      c.OutputOnly (t.client i) := by
    refine Outcome.Keeps.mapError ?_ f
    have hloop : (popResponsesLoop now ((v.server.client i).responseQueue.size + 2) sent
        ⟨v.server.client i, []⟩).Keeps fun p => c.OutputOnly p.client :=
      popResponsesLoop_keeps (fun _ _ _ _ _ hp => hp.trans ⟨rfl, rfl, rfl, rfl, id⟩)
        (fun _ _ _ hp => hp) now _ sent h
    exact hloop.mapState fun p hp => Server.client_setClient_of h hp
  exact hpops.mapState fun _ => id

theorem serverSendShortResponseStream_outputOnly (now : ℤ) (answers : SendAnswer × SendAnswer) :
    (serverSendShortResponseStream i now answers v).Keeps fun w =>
      (v.server.client i).OutputOnly (w.server.client i) := by
  unfold serverSendShortResponseStream
  have hadvance : ∀ n t, (advanceShort n t).clients = t.clients := fun _ _ => rfl
  refine (sendValue_outputOnly hadvance now answers _).andThen (fun sent w hw => ?_) fun _ => id
  dsimp only
  split_ifs
  · exact serverPopResponses_outputOnly (v := { w with server.shortResponseStreamOwner := none }) hw
  · exact serverPopResponses_outputOnly hw

theorem popLong_outputOnly {c : Client} {sent : ℕ} (h : c.OutputOnly (s.client i)) :
    (popLong i sent s).Keeps fun t => c.OutputOnly (t.client i) := by
  refine Server.onClient_keeps h ?_
  have hpop : (ringPop (s.client i).responseStream sent).Keeps fun r =>
      (s.client i).responseStream.Valid → r.Valid := by
    by_cases hvalid : (s.client i).responseStream.Valid
    · exact ((ringPop_spec hvalid sent).meets True).mono (fun _ r hr _ => hr.1)
        fun _ r hr _ => hr.1 ▸ hvalid
    · exact Outcome.meets_of_forall (fun _ _ _ h => absurd h hvalid) fun _ _ _ h => absurd h hvalid
  exact (hpop.mapError _).mapState fun r hr => h.trans ⟨rfl, rfl, rfl, rfl, hr⟩

theorem serverSendLongOutputBuffer_outputOnly (now : ℤ) (answers : SendAnswer × SendAnswer) :
    (serverSendLongOutputBuffer i now answers v).Keeps fun w =>
      (v.server.client i).OutputOnly (w.server.client i) := by
  unfold serverSendLongOutputBuffer
  dsimp only
  refine (sendValue_outputOnly (fun _ _ => rfl) now answers _).andThen (fun sent w hw => ?_) fun _ => id
  have hpop : (w.onServer (popLong i sent)).Keeps fun x =>
      (v.server.client i).OutputOnly (x.server.client i) :=
    Outcome.Keeps.mapState (popLong_outputOnly hw) fun _ => id
  exact hpop.andThen (fun _ x hx => serverPopResponses_outputOnly hx) fun _ => id

theorem serverSendTraffic_outputOnly (now : ℤ) (answers : SendAnswers) :
    (serverSendTraffic i now answers v).Keeps fun w =>
      (v.server.client i).OutputOnly (w.server.client i) := by
  unfold serverSendTraffic
  have hshort : (if v.server.owns i then
        (serverSendShortResponseStream i now answers.short v).andThen fun _ v =>
          .ok v.server.shortResponseStream.size v
      else .ok 0 v : Outcome ExError Visit ℕ).Keeps fun w =>
        (v.server.client i).OutputOnly (w.server.client i) := by
    split_ifs
    · exact (serverSendShortResponseStream_outputOnly now answers.short).andThen (fun _ _ hw => hw)
        fun _ => id
    · exact Client.OutputOnly.refl _
  refine hshort.andThen (fun size w hw => ?_) fun _ => id
  have hlong : (if w.flags.saturated = false ∧ (w.server.client i).responseStream.size > 0 then
        serverSendLongOutputBuffer i now answers.long w
      else .ok () w : Outcome ExError Visit Unit).Keeps fun u =>
        (v.server.client i).OutputOnly (u.server.client i) := by
    split_ifs
    · exact (serverSendLongOutputBuffer_outputOnly now answers.long).mono fun _ => hw.trans
    · exact hw
  refine hlong.andThen (fun _ u hu => ?_) fun _ => id
  dsimp only
  split_ifs
  · exact Server.client_setClient_of hu (hu.trans ⟨rfl, rfl, rfl, rfl, id⟩)
  · exact hu

/-! ## Bounds -/

/-- A client does not talk through OpenSSL, and has at most `n` bytes in its request stream. -/
structure Client.Bounded (n : ℕ) (client : Client) : Prop where
  ssl : client.ssl = false
  valid : client.requestStream.Valid
  size_le : client.requestStream.size ≤ n

theorem Client.Bounded.mono {m : ℕ} {client : Client} (h : client.Bounded n) (hle : n ≤ m) :
    client.Bounded m :=
  ⟨h.ssl, h.valid, h.size_le.trans hle⟩

theorem Client.OutputOnly.bounded {c d : Client} (h : c.OutputOnly d) (hc : c.Bounded n) : d.Bounded n :=
  ⟨h.ssl.trans hc.ssl, h.requestStream ▸ hc.valid, h.requestStream ▸ hc.size_le⟩

/-- A client that was finalized has nothing in its request stream. -/
theorem Client.finalized_bounded (client : Client) : client.finalized.Bounded 0 :=
  ⟨rfl, Ring.zero_valid, Nat.le_refl 0⟩

/-- Of any client the flush writes the response stream at most. -/
theorem flushShortResponseStream_outputOnly (realloc : Realloc) :
    (flushShortResponseStream realloc s).Keeps fun t => (s.client i).OutputOnly (t.client i) := by
  unfold flushShortResponseStream
  rcases s.shortResponseStreamOwner with _ | owner
  · exact Client.OutputOnly.refl _
  dsimp only
  have hwrite : (s.onClient owner.index fun client =>
      (serverReservePushValue realloc (s.shortResponseStream.read s.buffers)
        client.responseStream).mapState fun stream => { client with responseStream := stream }).Keeps
        fun t => (s.client i).OutputOnly (t.client i) := by
    by_cases howner : owner.index = i
    · rw [howner]
      exact Server.onClient_keeps (.refl _) ((serverReservePushValue_valid realloc _ _).mapState
        fun r hr => ⟨rfl, rfl, rfl, rfl, hr⟩)
    · refine Outcome.keeps_mapState _ fun client => ?_
      rw [Server.client_setClient_of_ne s howner]
      exact .refl _
  exact hwrite.andThen (fun _ t ht => ht) fun _ => id

/-- Taking a request takes its bytes out of the request stream. -/
theorem takeRequest_bounded {client : Client} (h : client.Bounded n) (response : Response) :
    (takeRequest response client).Keeps (Client.Bounded n) := by
  unfold takeRequest
  have hpop := ((ringPop_spec h.valid client.progress.request.streamSize).mapError
    (extend .closeLogDie)).mapState fun stream => { client with requestStream := stream }
  refine (hpop.meets True).andThen (fun _ d hd => ?_) fun _ d hd => ?_
  · obtain ⟨stream, rfl, hvalid, -, hsize, -⟩ := hd
    have htaken : ({ client with requestStream := stream } : Client).Bounded n :=
      ⟨h.ssl, hvalid, hsize.trans_le ((Nat.sub_le _ _).trans h.size_le)⟩
    dsimp only
    split_ifs
    · exact ⟨htaken.ssl, htaken.valid, htaken.size_le⟩
    · exact htaken
  · obtain ⟨stream, rfl, -, -, rfl, -⟩ := hd
    exact h

theorem processRequest_bounded (h : (s.client i).Bounded n) (answers : ProcessAnswers) :
    (processRequest i answers s).Keeps fun t => (t.client i).Bounded n := by
  unfold processRequest
  refine (flushShortResponseStream_outputOnly (i := i) answers.flush).andThen (fun _ t ht => ?_)
    fun _ ht => ht.bounded h
  have ht := ht.bounded h
  have hgenerate : (generateResponse i answers.processor t).Keeps fun u => (u.client i).Bounded n :=
    Outcome.keeps_mapState _ fun p => Server.client_setClient_of ht ⟨ht.ssl, ht.valid, ht.size_le⟩
  refine hgenerate.andThen (fun result u hu => ?_) fun _ => id
  obtain ⟨response, stream⟩ := result
  have htaken : ((u.emit (requestLog (u.client i) (stream.read u.buffers).bytes)).onClient i
      (takeRequest response)).Keeps fun x => (x.client i).Bounded n :=
    Server.onClient_keeps (s := u.emit _) hu (takeRequest_bounded hu response)
  refine htaken.andThen (fun _ x hx => ?_) fun _ => id
  have hstore : (storeResponse i answers response stream x).Keeps fun y => (y.client i).Bounded n := by
    unfold storeResponse
    rw [if_neg (by rw [hx.ssl]; exact Bool.false_ne_true)]
    split_ifs
    · exact Server.onClient_keeps hx (Outcome.keeps_mapState _ fun r => ⟨hx.ssl, hx.valid, hx.size_le⟩)
    · exact hx
  refine hstore.andThen (fun _ y hy => ?_) fun _ => id
  have hcounted : ((y.setClient i { y.client i with
      responseCount := (y.client i).responseCount + 1 }).client i).Bounded n :=
    Server.client_setClient_of hy ⟨hy.ssl, hy.valid, hy.size_le⟩
  refine Server.onClient_keeps hcounted ?_
  rw [resetParser_ok hcounted.ssl]
  exact ⟨hcounted.ssl, hcounted.valid, hcounted.size_le⟩

/-- Answering a request takes bytes out of the request stream. -/
theorem serverProcessTraffic_bounded (h : (s.client i).Bounded n) (now : ℤ) (answers : ProcessAnswers) :
    (serverProcessTraffic i now answers s).Keeps fun t => (t.client i).Bounded n := by
  unfold serverProcessTraffic
  have hparse : (s.onClient i parseRequest).Keeps fun t => (t.client i).Bounded n :=
    Server.onClient_keeps h (Outcome.keeps_mapState _ fun progress => ⟨h.ssl, h.valid, h.size_le⟩)
  refine hparse.andThen (fun _ t ht => ?_) fun _ => id
  split_ifs
  · exact ht
  · have hnoted : ((t.setClient i { t.client i with lastRequestComplete := now }).client i).Bounded n :=
      Server.client_setClient_of ht ⟨ht.ssl, ht.valid, ht.size_le⟩
    exact processRequest_bounded hnoted answers

/-! ## Receiving -/

/-- If client `i` owns the message and it is a request, there is room for it in the request stream. -/
def Server.MessageFits (s : Server) (i : ℕ) : Prop :=
  s.shortRequestMessageOwner = some (s.pointer i) → s.messageIsRequest = true →
    (s.client i).requestStream.size + s.shortRequestMessageSize ≤ maxRequestStreamSize

/-- What belongs to nobody fits. -/
theorem Server.messageFits_of_none (h : s.shortRequestMessageOwner = none) : s.MessageFits i := by
  intro howner
  rw [h] at howner
  cases howner

/-- The message fits as long as the request stream does not grow. -/
theorem Server.MessageFits.served (h : s.MessageFits i) (hserves : Visited i s t)
    (hsize : (t.client i).requestStream.size ≤ (s.client i).requestStream.size) : t.MessageFits i := by
  rcases hserves.messageOwner with ⟨howner, hmessageSize⟩ | ⟨-, hnone⟩
  · intro howns hrequest
    rw [howner, Server.pointer, hserves.block] at howns
    rw [Server.messageIsRequest, hserves.message, hmessageSize] at hrequest
    rw [hmessageSize]
    exact (Nat.add_le_add_right hsize _).trans (h howns hrequest)
  · exact Server.messageFits_of_none hnone

theorem Client.Bounded.noted {client : Client} (h : client.Bounded n) (now : ℤ) :
    (client.noteNotEmpty now).Bounded n := by
  rw [Client.noteNotEmpty_eq]
  exact ⟨h.ssl, h.valid, h.size_le⟩

/-- A ring that is reserved and pushed to grows by what is pushed. -/
theorem ringReserve_pushWrite {ring : Ring} (h : ring.Valid) {size : ℕ} {bytes : List UInt8}
    (hle : bytes.length ≤ size) (realloc : Realloc) (f g : Error → ExError) :
    (((ringReserve ring (ring.size + size) realloc).mapError f).andThen fun _ stream =>
      (ringPushWrite stream bytes).mapError g).Meets True
        (fun _ r => r.Valid ∧ r.size = ring.size + bytes.length) fun _ _ => True := by
  refine (((ringReserve_meets h _ realloc).of_imp fun _ => trivial).mapError f).andThen
    (fun _ r hr => ?_) fun _ _ _ => trivial
  obtain ⟨hvalid, -, hsize, hcapacity, -⟩ := hr
  obtain ⟨r', hpush, hvalid', -, hsize', -⟩ := ringPushWrite_ok hvalid bytes (by omega)
  rw [hpush]
  exact ⟨hvalid', hsize'.trans (by rw [hsize])⟩

/-- A message that fits is put behind what is in the request stream. -/
theorem serverReceiveDataGuppy_bounded (h : (v.server.client i).Bounded maxRequestStreamSize)
    (hfits : v.server.MessageFits i) (realloc : Realloc) :
    (serverReceiveDataGuppy i realloc v).Meets True
      (fun _ w => (w.server.client i).Bounded maxRequestStreamSize)
      fun _ w => (w.server.client i).ssl = false := by
  unfold serverReceiveDataGuppy
  by_cases howner : v.server.shortRequestMessageOwner = some (v.server.pointer i)
  swap
  · rw [if_pos howner]
    exact h
  rw [if_neg (not_not_intro howner)]
  dsimp only
  -- the message is forgotten afterwards, which is not about the client
  have hreceived : ∀ r : Outcome ExError Server Unit, (r.Meets True
        (fun _ t => (t.client i).Bounded maxRequestStreamSize) fun _ t => (t.client i).ssl = false) →
      ((r.mapState fun s => { v with server := s }).andThen fun _ v => .ok () { v with
        server.shortRequestMessageSize := 0, server.shortRequestMessageOwner := none }).Meets True
          (fun _ w => (w.server.client i).Bounded maxRequestStreamSize)
          fun _ w => (w.server.client i).ssl = false := by
    rintro (⟨_, t⟩ | ⟨e, t⟩ | _) hr
    · exact hr
    · exact hr
    · exact trivial
  split_ifs with hrequest hpasses
  · have hroom := hfits howner (by simpa [Server.messageIsRequest] using hrequest)
    have htake : (v.server.shortRequestMessage.take v.server.shortRequestMessageSize).length
        ≤ v.server.shortRequestMessageSize := List.length_take_le _ _
    refine hreceived _ (Outcome.Meets.mono (((ringReserve_pushWrite h.valid htake realloc _ _).mapState
      _).mapState _) ?_ ?_)
    · rintro _ _ ⟨_, rfl, stream, rfl, hvalid, hsize⟩
      exact Server.client_setClient_of h ⟨h.ssl, hvalid, by dsimp only; omega⟩
    · rintro _ _ ⟨_, rfl, stream, rfl, -⟩
      exact Server.client_setClient_of (P := fun client => client.ssl = false) h.ssl h.ssl
  · refine hreceived _ (Outcome.Meets.mono (Server.onClient_keeps h ?_) (fun _ _ ht => ht)
      fun _ _ ht => ht.ssl)
    unfold acknowledgeChunk
    dsimp only
    rcases ringGet (v.server.client i).responseQueue _ false with e | value
    · exact h
    · exact ⟨h.ssl, h.valid, h.size_le⟩
  · exact hreceived _ h.ssl

/-- A client is received from within the bound. -/
theorem serverReceiveTraffic_bounded (hi : i < v.server.clients.elements.length)
    (h : (v.server.client i).Bounded maxRequestStreamSize)
    (hfits : acceptingSocketIsMessage (v.server.client i).acceptingSocket = true →
      v.server.MessageFits i) (now : ℤ) (answers : ReceiveTrafficAnswers) :
    (serverReceiveTraffic i now answers v).Meets True
      (fun _ w => (w.server.client i).Bounded maxRequestStreamSize)
      fun _ w => (w.server.client i).ssl = false := by
  by_cases hmessage : acceptingSocketIsMessage (v.server.client i).acceptingSocket = true
  · unfold serverReceiveTraffic
    rw [if_pos hmessage]
    exact (serverReceiveDataGuppy_bounded h (hfits hmessage) answers.stream.realloc).andThen
      (fun _ w hw => Server.client_setClient_of hw (hw.noted now)) fun _ _ => id
  · have hconnection : acceptingSocketIsConnection (v.server.client i).acceptingSocket = true := by
      simp only [acceptingSocketIsMessage, acceptingSocketIsConnection, decide_eq_true_eq] at hmessage ⊢
      omega
    refine ((serverReceiveTraffic_meets hi hconnection h.ssl h.valid h.size_le now answers).meets
      True).mono ?_ ?_
    · rintro _ w ⟨available, r, bytes, hreceived, rfl⟩
      have hroom := availableSize_le available h.size_le
      have hlength := hreceived.length_le
      have hgrown := hreceived.grown
      have hstream : ({ v.server.client i with requestStream := r.1 } : Client).Bounded
          maxRequestStreamSize := ⟨h.ssl, hreceived.valid, by dsimp only; omega⟩
      exact Server.client_setClient_of h (hstream.noted now)
    · rintro e w ⟨⟨stream, hserver⟩, -⟩
      rw [hserver]
      exact Server.client_setClient_of (P := fun client => client.ssl = false) h.ssl h.ssl

/-- A client that was received from does not own the message any more. -/
theorem serverReceiveTraffic_unowned
    (hmessage : acceptingSocketIsMessage (v.server.client i).acceptingSocket = true) (now : ℤ)
    (answers : ReceiveTrafficAnswers) :
    (serverReceiveTraffic i now answers v).Meets True
      (fun _ w => w.server.shortRequestMessageOwner ≠ some (w.server.pointer i)) fun _ _ => True := by
  have hguppy : (serverReceiveDataGuppy i answers.stream.realloc v).Meets True
      (fun _ w => w.server.shortRequestMessageOwner ≠ some (w.server.pointer i)) fun _ _ => True := by
    unfold serverReceiveDataGuppy
    by_cases howner : v.server.shortRequestMessageOwner = some (v.server.pointer i)
    swap
    · rw [if_pos howner]
      exact howner
    rw [if_neg (not_not_intro howner)]
    dsimp only
    have hanything : ∀ r : Outcome ExError Visit Unit, r.Meets True (fun _ _ => True) fun _ _ => True :=
      fun r => Outcome.meets_of_forall (fun _ _ _ => trivial) fun _ _ _ => trivial
    exact (hanything _).andThen (fun _ _ _ => nofun) fun _ _ _ => trivial
  unfold serverReceiveTraffic
  rw [if_pos hmessage]
  exact hguppy.andThen (fun _ w hw => hw) fun _ _ => id

/-! ## Rounds -/

/-- Client `i` can be visited: it is in the table and within the bound, and what was received for it
fits. -/
structure Server.HasRoom (s : Server) (i : ℕ) : Prop where
  lt : i < s.clients.elements.length
  bounded : (s.client i).Bounded maxRequestStreamSize
  fits : acceptingSocketIsMessage (s.client i).acceptingSocket = true → s.MessageFits i

theorem Server.HasRoom.visited (h : s.HasRoom i) (hvisited : Visited i s t)
    (hbounded : (t.client i).Bounded (s.client i).requestStream.size) : t.HasRoom i :=
  ⟨hvisited.length ▸ h.lt, hbounded.mono h.bounded.size_le, fun hmessage =>
    (h.fits (hvisited.self.acceptingSocket ▸ hmessage)).served hvisited hbounded.size_le⟩

/-- Finalizing a client leaves room for anything. -/
theorem finalizeClient_client (hi : i < s.clients.elements.length) :
    (finalizeClient i s).client i = (s.client i).finalized := by
  have hfinalized : ∀ t : Server, t.clients = s.clients →
      (clientFinalize i t).client i = (s.client i).finalized := by
    intro t ht
    rw [clientFinalize_eq, ← Server.client_setClient (s := s) hi (s.client i).finalized]
    simp only [Server.client, Server.setClient, ht]
  unfold finalizeClient pollFinalize
  split_ifs
  · rcases (s.poll (pollIndex s i)).fd with _ | fd
    · exact hfinalized s rfl
    · exact hfinalized _ rfl
  · exact hfinalized s rfl

theorem Server.HasRoom.finalize (h : s.HasRoom i) : (finalizeClient i s).HasRoom i := by
  refine h.visited (finalizeClient_visited h.lt) ?_
  rw [finalizeClient_client h.lt]
  exact (s.client i).finalized_bounded.mono (Nat.zero_le _)

theorem Client.Bounded.self {client : Client} (h : client.Bounded n) :
    client.Bounded client.requestStream.size :=
  ⟨h.ssl, h.valid, Nat.le_refl _⟩

theorem roundReceive_hasRoom (h : v.server.HasRoom i) (now : ℤ) (answers : ReceiveTrafficAnswers) :
    (roundReceive i now answers v).Meets True (fun _ w => w.server.HasRoom i)
      fun _ w => (w.server.client i).ssl = false := by
  unfold roundReceive
  by_cases hguard : v.flags.exhausted = false ∧ v.flags.closed = false ∧
      getMakesSenseToReceive v.server i = true
  swap
  · rw [if_neg hguard]
    exact h
  rw [if_pos hguard]
  have hreceive : (serverReceiveTraffic i now answers { v with doneSomething := true }).Meets True
      (fun _ w => w.server.HasRoom i) fun _ w => (w.server.client i).ssl = false := by
    have hunowned : (serverReceiveTraffic i now answers { v with doneSomething := true }).Meets True
        (fun _ w => acceptingSocketIsMessage (v.server.client i).acceptingSocket = true →
          w.server.shortRequestMessageOwner ≠ some (w.server.pointer i)) fun _ _ => True := by
      by_cases hmessage : acceptingSocketIsMessage (v.server.client i).acceptingSocket = true
      · exact (serverReceiveTraffic_unowned (v := { v with doneSomething := true }) hmessage now
          answers).mono (fun _ _ hw _ => hw) fun _ _ => id
      · exact Outcome.meets_of_forall (fun _ _ _ h => absurd h hmessage) fun _ _ _ => trivial
    refine (((serverReceiveTraffic_bounded (v := { v with doneSomething := true }) h.lt h.bounded h.fits
      now answers).frame (serverReceiveTraffic_serves now answers)).and hunowned).mono ?_
        fun _ _ hw => hw.1.1
    rintro _ w ⟨⟨hbounded, hserves⟩, howner⟩
    exact ⟨hserves.length ▸ h.lt, hbounded, fun hmessage howns =>
      absurd howns (howner (hserves.self.acceptingSocket ▸ hmessage))⟩
  refine hreceive.andThen (fun _ w hw => ?_) fun _ _ => id
  split_ifs
  · exact Outcome.Meets.andThen (assertAll_keeps (P := fun w => w.server.HasRoom i) _ hw)
      (fun _ u hu => hu.finalize) fun _ _ hu => hu.bounded.ssl
  · exact hw

theorem roundParse_hasRoom (h : v.server.HasRoom i) (now : ℤ) (answers : ProcessAnswers)
    (shutdown : ShutdownAnswers) :
    (roundParse i now answers shutdown v).Meets True (fun _ w => w.server.HasRoom i)
      fun _ w => (w.server.client i).ssl = false := by
  unfold roundParse
  by_cases hguard : getMakesSenseToParse v.server i = true
  swap
  · rw [if_neg hguard]
    exact h
  rw [if_pos hguard]
  have hprocess : (serverProcessTraffic i now answers v.server).Keeps fun t => t.HasRoom i :=
    (Outcome.Meets.frame (serverProcessTraffic_serves now answers)
      (serverProcessTraffic_bounded h.bounded.self now answers)).mono
        (fun _ t ht => h.visited ht.1.visited ht.2) fun _ t ht => h.visited ht.1.visited ht.2
  refine Outcome.Meets.andThen (hprocess.mapState (Q := fun w : Visit => w.server.HasRoom i)
    fun _ => id) (fun _ w hw => ?_) fun _ _ hw => hw.bounded.ssl
  rw [if_neg (by simp [hw.bounded.ssl])]
  exact hw

theorem roundSend_hasRoom (h : v.server.HasRoom i) (now : ℤ) (answers : SendAnswers) :
    (roundSend i now answers v).Meets True (fun _ w => w.server.HasRoom i)
      fun _ w => (w.server.client i).ssl = false := by
  unfold roundSend
  by_cases hguard : v.flags.saturated = false ∧ getMakesSenseToSend v.server i = true
  swap
  · rw [if_neg hguard]
    exact h
  rw [if_pos hguard]
  have hsend : (serverSendTraffic i now answers { v with doneSomething := true }).Keeps fun w =>
      w.server.HasRoom i :=
    (Outcome.Meets.frame (serverSendTraffic_serves now answers)
      (serverSendTraffic_outputOnly now answers)).mono
        (fun _ w hw => h.visited hw.1.visited (hw.2.bounded h.bounded.self))
        fun _ w hw => h.visited hw.1.visited (hw.2.bounded h.bounded.self)
  refine Outcome.Meets.andThen hsend (fun _ w hw => ?_) fun _ _ hw => hw.bounded.ssl
  split_ifs
  · exact Outcome.Meets.andThen (assertAll_keeps (P := fun w => w.server.HasRoom i) _ hw)
      (fun _ u hu => hu.finalize) fun _ _ hu => hu.bounded.ssl
  · exact hw

theorem roundBlocks_hasRoom (h : v.server.HasRoom i) (now : ℤ) (answers : RoundAnswers) :
    (roundBlocks i now answers v).Meets True (fun _ w => w.server.HasRoom i)
      fun _ w => (w.server.client i).ssl = false := by
  unfold roundBlocks
  have hfirst : (roundFirst i now v).Keeps fun w => w.server = v.server := by
    unfold roundFirst
    split_ifs
    · dsimp only
      split_ifs
      · exact Outcome.meets_error.mpr rfl
      · rcases checkTimeouts v.server i now none with e | remaining
        · exact Outcome.meets_error.mpr rfl
        · exact Outcome.meets_ok.mpr rfl
    · exact Outcome.meets_ok.mpr rfl
  refine Outcome.Meets.andThen hfirst (fun _ u hu => ?_) fun _ w hw => hw ▸ h.bounded.ssl
  refine (roundReceive_hasRoom (hu ▸ h) now answers.receive).andThen (fun finalized w hw => ?_)
    fun _ _ => id
  split_ifs
  · exact hw
  · exact (roundParse_hasRoom hw now answers.process answers.shutdown).andThen
      (fun _ x hx => roundSend_hasRoom hx now answers.send) fun _ _ => id

/-- A round that fails is not recovered. -/
theorem serverProcessClientRound_eq_roundBlocks (h : v.server.HasRoom i) (now : ℤ)
    (answers : RoundAnswers) : serverProcessClientRound i now answers v = roundBlocks i now answers v := by
  have hblocks := roundBlocks_hasRoom h now answers
  unfold serverProcessClientRound
  rcases hreturns : roundBlocks i now answers v with ⟨_, w⟩ | ⟨e, w⟩ | _
  · rfl
  · rw [hreturns] at hblocks
    have hssl : (w.server.client i).ssl = false := hblocks
    rw [Outcome.handle_error, if_neg (by simp [roundRecovers, hssl])]
  · rfl

theorem serverProcessClientRound_hasRoom (h : v.server.HasRoom i) (now : ℤ) (answers : RoundAnswers) :
    (serverProcessClientRound i now answers v).Meets True (fun _ w => w.server.HasRoom i)
      fun _ w => (w.server.client i).ssl = false := by
  rw [serverProcessClientRound_eq_roundBlocks h]
  exact roundBlocks_hasRoom h now answers

/-! ## Visits -/

/-- An error that does not end the server ends the client. -/
theorem ExError.ends_of_not_die {e : ExError} (h : e.has partialEefDie = false) :
    e.has partialEefShutdown = true ∨ e.has partialEefClose = true := by
  rw [← Bool.not_eq_true, e.has_die_iff, not_or] at h
  simp only [ExError.has, ExError.flags]
  rcases heef : e.eef with _ | fixed | _ | _ | fixed | _
  · exact .inl (by decide)
  · exact .inl (by cases fixed <;> decide)
  · exact .inr (by decide)
  · exact absurd heef h.1
  · exact .inr (by cases fixed <;> decide)
  · exact absurd heef h.2

/-- Whatever the label `failure` does, the client is finalized. -/
theorem failureActions_finalized (hi : i < s.clients.elements.length) (taken : ℕ) (e : ExError) :
    (failureActions i taken e s).Yields fun _ t => ∃ client : Client, t.client i = client.finalized := by
  unfold failureActions
  by_cases hdie : e.has partialEefDie = true
  · dsimp only
    rw [if_pos hdie]
    exact trivial
  have hends := ExError.ends_of_not_die (Bool.eq_false_iff.mpr hdie)
  have hfixed : (sendFixed i taken e s).clients = s.clients := by
    unfold sendFixed
    dsimp only
    split_ifs <;> rfl
  have hlength : ∀ t : Server, i < t.clients.elements.length →
      i < (finalizeClient i t).clients.elements.length := fun t ht =>
    (finalizeClient_visited ht).length ▸ ht
  have hfinalized : ∀ t : Server, i < t.clients.elements.length →
      ∃ client : Client, (finalizeClient i t).client i = client.finalized := fun t ht =>
    ⟨t.client i, finalizeClient_client ht⟩
  have hi' : i < (sendFixed i taken e s).clients.elements.length := hfixed ▸ hi
  dsimp only
  rw [if_neg hdie]
  have hprinted : ∀ t : Server, (∃ client : Client, t.client i = client.finalized) → ∃ client : Client,
      (if e.has partialEefLog = true then t.emit (.errorPrinted e.error) else t).client i
        = client.finalized := by
    intro t ht
    split_ifs
    · exact ht
    · exact ht
  refine Outcome.meets_ok.mpr (hprinted _ ?_)
  by_cases hclose : e.has partialEefClose = true
  · rw [if_pos hclose]
    split_ifs
    · exact hfinalized _ (hlength _ hi')
    · exact hfinalized _ hi'
  · rw [if_neg hclose, if_pos (hends.resolve_right hclose)]
    exact hfinalized _ hi'

theorem prepareToWait_client (i : ℕ) (now remaining : ℤ) (s : Server) (j : ℕ) :
    (prepareToWait i now remaining s).1.client j = s.client j := by
  rw [prepareToWait_fst]
  split_ifs <;> rfl

theorem serverProcessClientLoop_bounded (now remaining : ℤ) (answers : VisitAnswers) (fuel k : ℕ)
    (h : v.server.HasRoom i) : (serverProcessClientLoop i now remaining answers fuel k v).Meets True
      (fun _ t => (t.client i).Bounded maxRequestStreamSize) fun _ _ => True := by
  induction fuel generalizing k v with
  | zero => exact trivial
  | succ fuel ih =>
    rw [serverProcessClientLoop]
    have hround := Outcome.Meets.frame (serverProcessClientRound_hasRoom
      (v := { v with doneSomething := false }) h now (answers.rounds k))
        (serverProcessClientRound_visited (v := { v with doneSomething := false }) h.lt now
          (answers.rounds k))
    refine hround.handle (fun _ w hw => ?_) fun e w hw => ?_
    · split_ifs
      · exact ih (k + 1) hw.1
      · show ((prepareToWait i now remaining w.server).1.client i).Bounded _
        rw [prepareToWait_client]
        exact hw.1.bounded
    · have hlt : i < w.server.clients.elements.length := hw.2.length ▸ h.lt
      refine Outcome.Meets.andThen (failureActions_finalized hlt answers.taken e) (fun _ t ht => ?_)
        fun _ _ _ => trivial
      obtain ⟨client, hclient⟩ := ht
      show (t.client i).Bounded _
      rw [hclient]
      exact client.finalized_bounded.mono (Nat.zero_le _)

/-- After a visit the client is still within the bound. -/
theorem serverProcessClient_bounded (h : s.HasRoom i) (now remaining : ℤ) (answers : VisitAnswers)
    (fuel : ℕ) : (serverProcessClient i now remaining answers fuel s).Meets True
      (fun _ t => (t.client i).Bounded maxRequestStreamSize) fun _ _ => True :=
  serverProcessClientLoop_bounded (v := startVisit i s) now remaining answers fuel 0 h

end Twinkleshine
