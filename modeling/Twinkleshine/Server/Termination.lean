import Twinkleshine.Parser.Advance
import Twinkleshine.Server.Delivery
import Twinkleshine.Server.Requests

/-!
# Visits come to an end

The loop of `server_process_client` goes on as long as a round did something. For a connection that is not
encrypted each such round sets a flag, takes bytes out of the request stream, parses some, or sends all that
is pending; it puts bytes into the request stream only when a read delivers some. `Client.Workable` is
what this rests on: a request stream that is full is resolved by the parser in the same round, because a
call of `parser_parse` that returns has not left a full stream unfinished.
-/

namespace Twinkleshine

open Library

variable {i n : ℕ} {now : ℤ} {s t : Server} {v w : Visit}

/-! ## Clients that can be worked for -/

/-- A client that is not encrypted, within the bounds of its request stream. What is parsed of an unfinished
request does not fill the stream, and a request does not end before its first byte. -/
structure Client.Workable (client : Client) : Prop where
  plain : client.Plain
  size_le : client.requestStream.size ≤ maxRequestStreamSize
  unfinished : client.progress.parser.state ≠ .end → client.progress.request.streamSize < maxRequestSize
  headed : client.progress.Headed → 0 < client.progress.request.streamSize

/-- What a client holds while its request is answered: this many bytes of requests, and this progress. -/
structure Client.Holds (n : ℕ) (progress : Progress) (client : Client) : Prop where
  operational : client.cryptographyState = .operational
  ssl : client.ssl = false
  requests : client.requestStream.Valid
  size : client.requestStream.size = n
  progress : client.progress = progress
  stream : client.responseStream.Valid

section

variable {progress : Progress} {client d : Client}

theorem Client.OutputOnly.holds (h : client.OutputOnly d) (hc : client.Holds n progress) :
    d.Holds n progress :=
  ⟨h.cryptographyState.trans hc.operational, h.ssl.trans hc.ssl, h.requestStream ▸ hc.requests,
    h.requestStream ▸ hc.size, h.progress.trans hc.progress, h.responses hc.stream⟩

/-- A computation on client `i` of the table. -/
theorem Server.onClient_yields {P : Client → Prop} {ε α : Type} (hi : i < s.clients.elements.length)
    {f : Client → Outcome ε Client α} (h : (f (s.client i)).Yields fun _ => P) :
    (s.onClient i f).Yields fun _ t => P (t.client i) ∧ i < t.clients.elements.length := by
  refine h.mapState fun _ c hc => ?_
  rw [Server.client_setClient hi, Server.clients_setClient, List.length_set]
  exact ⟨hc, hi⟩

/-- Taking a request takes as many bytes as are parsed. -/
theorem takeRequest_holds (h : client.Holds n progress) (response : Response) :
    (takeRequest response client).Yields fun _ d => d.Holds (n - progress.request.streamSize) progress := by
  unfold takeRequest
  have hpop : (((ringPop client.requestStream client.progress.request.streamSize).mapError
      (extend .closeLogDie)).mapState fun stream => { client with requestStream := stream }).Yields
        fun _ d => d.Holds (n - progress.request.streamSize) progress := by
    refine ((ringPop_spec h.requests client.progress.request.streamSize).yields.mapError _).mapState
      fun _ stream hstream => ?_
    obtain ⟨hvalid, -, hsize, -⟩ := hstream
    exact ⟨h.operational, h.ssl, hvalid, by rw [hsize, h.size, h.progress], h.progress, h.stream⟩
  refine hpop.andThen fun _ d hd => ?_
  split_ifs
  · exact ⟨hd.operational, hd.ssl, hd.requests, hd.size, hd.progress, hd.stream⟩
  · exact hd

/-- The parser is reset, or stays where it is. -/
theorem resetParser_holds (h : client.Holds n progress) (answers : ShutdownAnswers) :
    (resetParser answers client).Yields fun _ d => d.Holds n .zero ∨ d.Holds n progress := by
  rw [resetParser_ok h.ssl]
  by_cases hkeep : client.response.keepAlive = true
  · exact .inl ⟨h.operational, h.ssl, h.requests, h.size, if_pos hkeep, h.stream⟩
  · exact .inr ⟨h.operational, h.ssl, h.requests, h.size, (if_neg hkeep).trans h.progress, h.stream⟩

/-- A complete request is answered: its bytes are gone, and the parser is reset or stays at the end. -/
theorem processRequest_holds (hi : i < s.clients.elements.length) (h : (s.client i).Holds n progress)
    (answers : ProcessAnswers) :
    (processRequest i answers s).Yields fun _ t =>
      (t.client i).Holds (n - progress.request.streamSize) .zero ∨
        (t.client i).Holds (n - progress.request.streamSize) progress := by
  unfold processRequest
  -- none of the blocks but the third touches what was received
  have hflush : (flushShortResponseStream answers.flush s).Yields fun _ t =>
      (t.client i).Holds n progress ∧ i < t.clients.elements.length :=
    ((flushShortResponseStream_outputOnly (i := i) answers.flush).yields.and
      (flushShortResponseStream_attends (i := i) answers.flush).yields).mono fun _ t ht =>
        ⟨ht.1.holds h, ht.2.1.length ▸ hi⟩
  refine hflush.andThen fun _ t ht => ?_
  obtain ⟨ht, hlt⟩ := ht
  have hgenerate : (generateResponse i answers.processor t).Yields fun _ u =>
      (u.client i).Holds n progress ∧ i < u.clients.elements.length := by
    refine (Outcome.yields_of_forall fun _ _ _ => trivial).mapState fun _ p _ => ⟨?_, ?_⟩
    · show ((t.setClient i { t.client i with responseQueue := p.responseQueue }).client i).Holds _ _
      rw [Server.client_setClient hlt]
      exact ⟨ht.operational, ht.ssl, ht.requests, ht.size, ht.progress, ht.stream⟩
    · show i < (t.setClient i _).clients.elements.length
      rwa [Server.clients_setClient, List.length_set]
  refine hgenerate.andThen fun result u hu => ?_
  obtain ⟨response, stream⟩ := result
  obtain ⟨hu, hlt⟩ := hu
  -- the request is taken out here, and its bytes are gone
  refine (Server.onClient_yields (s := u.emit _) hlt (takeRequest_holds hu response)).andThen
    fun _ x hx => ?_
  obtain ⟨hx, hlt⟩ := hx
  have hstore : (storeResponse i answers response stream x).Yields fun _ y =>
      (y.client i).Holds (n - progress.request.streamSize) progress ∧ i < y.clients.elements.length := by
    unfold storeResponse
    rw [if_neg (by rw [hx.ssl]; exact Bool.false_ne_true)]
    split_ifs
    · refine Server.onClient_yields hlt ((serverReservePushValue_valid answers.store _ _).yields.mapState
        fun _ r hr => ?_)
      exact ⟨hx.operational, hx.ssl, hx.requests, hx.size, hx.progress, hr hx.stream⟩
    · exact ⟨hx, hlt⟩
  refine hstore.andThen fun _ y hy => ?_
  obtain ⟨hy, hlt⟩ := hy
  -- the parser begins anew, or stays at the end for good
  have hcounted := Server.client_setClient hlt { y.client i with
    responseCount := (y.client i).responseCount + 1 }
  have hholds : ({ y.client i with responseCount := (y.client i).responseCount + 1 } : Client).Holds
      (n - progress.request.streamSize) progress :=
    ⟨hy.operational, hy.ssl, hy.requests, hy.size, hy.progress, hy.stream⟩
  have hreset := resetParser_holds hholds answers.finalize
  rw [← hcounted] at hreset
  exact (Server.onClient_yields (by rwa [Server.clients_setClient, List.length_set]) hreset).mono
    fun _ _ h => h.1

theorem Client.Holds.workable (h : client.Holds n progress) (hn : n ≤ maxRequestStreamSize)
    (hparse : progress.parser.state ≠ .end → progress = .zero)
    (hheaded : progress.Headed → 0 < progress.request.streamSize) : client.Workable := by
  have hsize : client.requestStream.size = n := h.size
  refine ⟨⟨h.operational, h.ssl, h.requests, fun hstate => ?_, h.stream⟩, by omega, fun hstate => ?_, ?_⟩
  · rw [h.progress] at hstate ⊢
    rw [hparse hstate]
    exact Progress.zero_parseInv _ _
  · rw [h.progress] at hstate ⊢
    rw [hparse hstate]
    decide
  · rw [h.progress]
    exact hheaded

/-- `server_process_traffic` parses all that is left of the request stream, or takes bytes out of it. -/
theorem serverProcessTraffic_workable (hi : i < s.clients.elements.length) (h : (s.client i).Workable)
    (hstate : (s.client i).progress.parser.state ≠ .end) (now : ℤ) (answers : ProcessAnswers) :
    (serverProcessTraffic i now answers s).Yields fun _ t => (t.client i).Workable ∧
      ((t.client i).requestStream.size < (s.client i).requestStream.size ∨
        (t.client i).requestStream.size = (s.client i).requestStream.size ∧
          (t.client i).progress.request.streamSize = (t.client i).requestStream.size) := by
  have hplain := h.plain
  have hinv : Session.Inv (s.client i).acceptingSocket ⟨(s.client i).requestStream, (s.client i).progress⟩ :=
    ⟨hplain.requests, hplain.parse hstate⟩
  -- the parser has come to the end of the stream, or to the end of a request
  have hparse : (parseRequest (s.client i)).Yields fun _ d => ∃ progress,
      d = { s.client i with progress := progress } ∧
      ParseInv (s.client i).acceptingSocket (s.client i).requestStream.size progress ∧
      (progress.parser.state ≠ .end → progress.request.streamSize = (s.client i).requestStream.size ∧
        (s.client i).requestStream.size < maxRequestSize) ∧
      (progress.Headed → 0 < progress.request.streamSize) := by
    refine (hinv.parse_ensures.yields.and (hinv.parse_advances h.headed).yields).mapState
      fun _ progress hprogress => ?_
    exact ⟨progress, rfl, hprogress.1, hprogress.2.1, hprogress.2.2⟩
  unfold serverProcessTraffic
  refine (Server.onClient_yields hi hparse).andThen fun _ t ht => ?_
  obtain ⟨⟨progress, hclient, hinv', hcounted, hheaded⟩, hlt⟩ := ht
  rw [hclient]
  by_cases hend : progress.parser.state = .end
  · -- a whole request was found, which is not empty
    rw [if_neg (not_not_intro hend)]
    have hpos := hheaded (.inr hend)
    have hle := hinv'.streamSize_le
    have hclient' := Server.client_setClient hlt { s.client i with
      progress := progress, lastRequestComplete := now }
    have hholds : ((t.setClient i { s.client i with
        progress := progress, lastRequestComplete := now }).client i).Holds
          (s.client i).requestStream.size progress := by
      rw [hclient']
      exact ⟨hplain.operational, hplain.ssl, hplain.requests, rfl, rfl, hplain.stream⟩
    refine (processRequest_holds (by rwa [Server.clients_setClient, List.length_set]) hholds
      answers).mono fun _ u hu => ?_
    have hsize := h.size_le
    have hzero : Progress.zero.Headed → 0 < Progress.zero.request.streamSize := fun h => absurd h (by
      rintro (h | h) <;> cases h)
    rcases hu with hu | hu
    · exact ⟨hu.workable (by omega) (fun _ => rfl) hzero, .inl (by rw [hu.size]; omega)⟩
    · exact ⟨hu.workable (by omega) (fun hne => absurd hend hne) hheaded, .inl (by rw [hu.size]; omega)⟩
  · -- all that was received is parsed, and the request goes on
    rw [if_pos hend]
    obtain ⟨hall, hlt⟩ := hcounted hend
    refine ⟨?_, .inr ?_⟩
    · rw [hclient]
      exact ⟨⟨hplain.operational, hplain.ssl, hplain.requests, fun _ => hinv', hplain.stream⟩, h.size_le,
        fun _ => hall ▸ hlt, hheaded⟩
    · rw [hclient]
      exact ⟨rfl, hall⟩

end

/-! ## Reads -/

/-- How many bytes a read could deliver. -/
def ReadAnswer.offered : ReadAnswer → ℕ
  | .data _ rest => rest.length + 1
  | .ended | .wouldBlock | .failed _ => 0

/-- How many bytes the reads of a round could deliver. -/
def RoundAnswers.offered (answers : RoundAnswers) : ℕ :=
  answers.receive.stream.reads.1.offered + answers.receive.stream.reads.2.offered

theorem readParts_offered (parts : List (ℕ × ReadAnswer)) :
    (readParts parts).Yields fun _ r => r.bytes.length ≤ (parts.map fun part => part.2.offered).sum := by
  induction parts with
  | nil => exact Nat.le_refl 0
  | cons part parts ih =>
    obtain ⟨size, answer⟩ := part
    rw [readParts.eq_def, List.map_cons, List.sum_cons]
    dsimp only
    by_cases hzero : size = 0
    · rw [if_pos hzero]
      exact ih.mono fun _ r hr => hr.trans (Nat.le_add_left _ _)
    rw [if_neg hzero]
    rcases answer with ⟨first, rest⟩ | _ | _ | errno
    · have hreceived : ((first :: rest).take size).length ≤ rest.length + 1 :=
        (List.length_take_le' _ _).trans (List.length_cons).le
      dsimp only
      split_ifs
      · exact hreceived.trans (Nat.le_add_right _ _)
      · refine ih.mapState fun _ r hr => ?_
        rw [List.length_append]
        exact Nat.add_le_add hreceived hr
    · exact Nat.zero_le _
    · exact Nat.zero_le _
    · exact trivial

/-- A stream grows by no more bytes than the reads could deliver. -/
theorem serverReceiveStream_offered {stream : Ring} (h : stream.Valid) (size : ℕ)
    (answers : ReceiveAnswers) (flags : ConnectionFlags) :
    (serverReceiveStream size answers flags stream).Yields fun _ r =>
      r.1.size ≤ stream.size + (answers.reads.1.offered + answers.reads.2.offered) := by
  unfold serverReceiveStream
  refine ((ringReserve_meets h _ answers.realloc).of_imp fun _ => trivial).handle
    (fun _ reserved hreserved => ?_) fun _ _ _ => trivial
  obtain ⟨hvalid, -, hsame, hcapacity, -⟩ := hreserved
  have hcap := hvalid.capacity_le
  refine ((ringPushGet_fill hvalid (show reserved.size + size < 2 ^ 64 by omega)).meets True).handle
    (fun value pushed hpushed => ?_) fun _ _ _ => trivial
  obtain ⟨hparts, hfill⟩ := hpushed
  have hoffered : ((value.reads answers.reads).map fun part => part.2.offered).sum
      = answers.reads.1.offered + answers.reads.2.offered := by
    rw [MutableValue.reads, List.map_cons, List.map_singleton, List.sum_cons, List.sum_singleton]
  have hasked : ((value.reads answers.reads).map Prod.fst).sum = size := by
    rw [MutableValue.reads, List.map_cons, List.map_singleton, List.sum_cons, List.sum_singleton, hparts]
  have hreads := (readParts_offered (value.reads answers.reads)).and
    (readParts_meets (value.reads answers.reads)).yields
  refine Outcome.Meets.handle hreads (fun _ reception hreception => ?_) fun _ _ _ => trivial
  obtain ⟨hreceived, hfits, -⟩ := hreception
  obtain ⟨r, hunpush, -, -, hgrown⟩ := hfill reception.bytes (hasked ▸ hfits)
  dsimp only
  rw [hparts, hunpush]
  show r.size ≤ _
  rw [hgrown, hsame, ← hoffered]
  exact Nat.add_le_add_left hreceived _

/-- There is room for a byte as long as the request stream is not full. -/
theorem availableSize_pos (available : ℕ) {size : ℕ} (h : size < maxRequestStreamSize) :
    0 < availableSize available size := by
  have hmin : 0 < minAvailableRequestStream := by decide
  rw [availableSize, sizeSub_eq h.le (by decide)]
  split_ifs <;> omega

/-- What a call of `server_receive_traffic` did that returned: it put bytes behind those in the request
stream, or set a flag, if there was room. -/
structure TrafficReceived (i : ℕ) (v w : Visit) : Prop where
  workable : (w.server.client i).Workable
  progress : (w.server.client i).progress = (v.server.client i).progress
  output : clientResponseStreamSize w.server i = clientResponseStreamSize v.server i
  saturated : w.flags.saturated = v.flags.saturated
  first : w.first = v.first
  grown : (v.server.client i).requestStream.size ≤ (w.server.client i).requestStream.size
  got : (v.server.client i).requestStream.size < maxRequestStreamSize →
    (v.server.client i).requestStream.size < (w.server.client i).requestStream.size ∨
      w.flags.closed = true ∨ w.flags.exhausted = true

theorem serverReceiveTraffic_received (hi : i < v.server.clients.elements.length)
    (hconnection : acceptingSocketIsConnection (v.server.client i).acceptingSocket = true)
    (h : (v.server.client i).Workable) (now : ℤ) (answers : ReceiveTrafficAnswers) :
    (serverReceiveTraffic i now answers v).Yields fun _ w => TrafficReceived i v w := by
  refine (serverReceiveTraffic_meets hi hconnection h.plain.ssl h.plain.requests h.size_le now
    answers).yields.mono ?_
  rintro _ _ ⟨available, r, bytes, hreceived, rfl⟩
  have hclient := Server.client_setClient hi
    (({ v.server.client i with requestStream := r.1 } : Client).noteNotEmpty now)
  have hroom := availableSize_le available h.size_le
  have hgrown := hreceived.grown
  have hle := hreceived.length_le
  have hnoted := Client.noteNotEmpty_eq now { v.server.client i with requestStream := r.1 }
  have hsize : (({ v with
      server := v.server.setClient i
        (({ v.server.client i with requestStream := r.1 } : Client).noteNotEmpty now)
      flags := r.2 } : Visit).server.client i).requestStream.size
        = (v.server.client i).requestStream.size + bytes.length := by
    rw [← hgrown, hclient, hnoted]
  refine ⟨?_, ?_, ?_, hreceived.saturated, rfl, ?_, fun hlt => ?_⟩
  · show ((v.server.setClient i _).client i).Workable
    rw [hclient, hnoted]
    exact ⟨hnoted ▸ h.plain.received hreceived.valid (by omega) now, by dsimp only; omega, h.unfinished,
      h.headed⟩
  · show ((v.server.setClient i _).client i).progress = _
    rw [hclient, hnoted]
  · show clientResponseStreamSize (v.server.setClient i _) i = _
    rw [clientResponseStreamSize, clientResponseStreamSize, hclient, hnoted]
    rfl
  · exact hsize ▸ Nat.le_add_right _ _
  · rcases hreceived.progress (availableSize_pos available hlt) with hbytes | hflags
    · exact .inl (by rw [hsize]; omega)
    · exact .inr hflags

/-- The request stream grows by no more bytes than the reads could deliver. -/
theorem serverReceiveTraffic_offered (hi : i < v.server.clients.elements.length)
    (hconnection : acceptingSocketIsConnection (v.server.client i).acceptingSocket = true)
    (h : (v.server.client i).Workable) (now : ℤ) (answers : RoundAnswers) :
    (serverReceiveTraffic i now answers.receive v).Yields fun _ w =>
      (w.server.client i).requestStream.size
        ≤ (v.server.client i).requestStream.size + answers.offered := by
  unfold serverReceiveTraffic
  rw [if_neg (not_message_of_connection hconnection)]
  rcases answers.receive.available with errno | available
  · exact trivial
  dsimp only
  split_ifs
  · exact trivial
  swap
  · exact trivial
  unfold receiveData
  dsimp only
  refine Outcome.Meets.andThen (Outcome.Meets.mapState
    (serverReceiveStream_offered h.plain.requests _ answers.receive.stream v.flags) _)
      (fun _ w hw => ?_) fun _ _ _ => trivial
  obtain ⟨r, rfl, hr⟩ := hw
  dsimp only
  rw [Server.client_setClient hi, Server.setClient_setClient, Client.noteNotEmpty_eq, if_neg (by
    rw [h.plain.ssl]
    exact Bool.false_ne_true)]
  show ((v.server.setClient i _).client i).requestStream.size ≤ _
  rw [Server.client_setClient hi]
  exact hr

/-! ## Sends -/

/-- A call of `server_send_stream` sends all of the stream, or finds the socket saturated. -/
theorem serverSendStream_whole (answers : SendAnswer × SendAnswer) (stream : ConstantValue) :
    (serverSendStream answers stream).Yields fun _ r => r.saturated = true ∨ r.taken = stream.bytes := by
  unfold serverSendStream
  cases h₀ : sendPart answers.1 stream.part0 with
  | error e => exact trivial
  | ok first =>
    obtain ⟨left₀, taken₀, saturated₀⟩ := first
    have hwhole₀ := (sendPart_spec h₀).2
    dsimp only
    by_cases hsaturated : saturated₀ = true
    · rw [if_pos hsaturated]
      exact .inl rfl
    rw [if_neg hsaturated]
    cases h₁ : sendPart answers.2 stream.part1 with
    | error e => exact trivial
    | ok second =>
      obtain ⟨left₁, taken₁, saturated₁⟩ := second
      have hwhole₁ := (sendPart_spec h₁).2
      by_cases hsaturated₁ : saturated₁ = true
      · exact .inl hsaturated₁
      · refine .inr ?_
        show taken₀ ++ taken₁ = stream.part0 ++ stream.part1
        rw [hwhole₀ (Bool.eq_false_iff.mpr hsaturated), hwhole₁ (Bool.eq_false_iff.mpr hsaturated₁)]

/-- The flags of the connection after something was sent. -/
structure FlagsAfterSend (v w : Visit) : Prop where
  saturated : v.flags.saturated = true → w.flags.saturated = true
  exhausted : w.flags.exhausted = v.flags.exhausted
  closed : w.flags.closed = v.flags.closed

theorem FlagsAfterSend.trans {x : Visit} (h : FlagsAfterSend v w) (h' : FlagsAfterSend w x) :
    FlagsAfterSend v x :=
  ⟨fun hv => h'.saturated (h.saturated hv), h'.exhausted.trans h.exhausted, h'.closed.trans h.closed⟩

theorem sendStream_whole {answers : SendAnswer × SendAnswer} {advance : ℕ → Server → Server}
    {stream : ConstantValue} (h : sendStream i answers advance stream v = .ok n w) :
    FlagsAfterSend v w ∧ (w.flags.saturated = true ∨ n = valueSize stream) ∧
      ∃ effect, w.server = (advance n v.server).emit effect := by
  rw [sendStream] at h
  rcases hsent : serverSendStream answers stream with ⟨_, r⟩ | ⟨e, r⟩ | _
  · rw [hsent] at h
    obtain ⟨rfl, rfl⟩ := Outcome.ok.inj h
    refine ⟨⟨fun hv => ?_, rfl, rfl⟩, ?_, _, rfl⟩
    · show (v.flags.saturated || r.saturated) = true
      rw [hv, Bool.true_or]
    · rcases (serverSendStream_whole answers stream).of_eq_ok hsent with hsaturated | hwhole
      · refine .inl ?_
        show (v.flags.saturated || r.saturated) = true
        rw [hsaturated, Bool.or_true]
      · exact .inr (by rw [hwhole, valueSize_eq])
  · rw [hsent] at h
    cases h
  · rw [hsent] at h
    cases h

/-- Popping responses changes no flag, and leaves the response stream. -/
theorem serverPopResponses_stream {now : ℤ} {sent : ℕ} {f : Error → ExError}
    (h : (v.onServer fun s => (serverPopResponses i now sent s).mapError f) = .ok () w) :
    FlagsAfterSend v w ∧ (w.server.client i).responseStream = (v.server.client i).responseStream := by
  obtain ⟨t, ht, rfl⟩ := Outcome.mapState_eq_ok.mp h
  obtain ⟨p, hp, rfl⟩ := Outcome.mapState_eq_ok.mp (Outcome.mapError_eq_ok.mp ht)
  have hkept : p.client.responseStream = (v.server.client i).responseStream :=
    (popResponsesLoop_keeps (P := fun p => p.client.responseStream = (v.server.client i).responseStream)
      (fun _ _ _ _ _ hp => hp) (fun _ _ _ hp => hp) now _ sent rfl).of_eq_ok hp
  exact ⟨⟨id, rfl, rfl⟩, Server.client_setClient_of
    (P := fun c => c.responseStream = (v.server.client i).responseStream) rfl hkept⟩

/-- The short response stream is sent to its end and belongs to nobody, or the socket is saturated. -/
theorem serverSendShortResponseStream_whole {now : ℤ} {answers : SendAnswer × SendAnswer}
    (hconnection : acceptingSocketIsConnection (v.server.client i).acceptingSocket = true)
    (hread : v.server.Readable) (h : serverSendShortResponseStream i now answers v = .ok () w) :
    FlagsAfterSend v w ∧ (w.flags.saturated = true ∨ w.server.shortResponseStreamOwner = none) := by
  obtain ⟨sent, u, hsend, hpop⟩ := Outcome.andThen_eq_ok.mp h
  rw [sendValue, if_pos hconnection] at hsend
  obtain ⟨hflags, hwhole, effect, hserver⟩ := sendStream_whole hsend
  dsimp only at hpop
  by_cases hzero : u.server.shortResponseStream.size = 0
  · rw [if_pos hzero] at hpop
    have hflags' := (serverPopResponses_stream hpop).1
    exact ⟨hflags.trans ⟨hflags'.saturated, hflags'.exhausted, hflags'.closed⟩,
      .inr (serverPopResponses_short hpop).owner⟩
  · rw [if_neg hzero] at hpop
    have hflags' := hflags.trans (serverPopResponses_stream hpop).1
    refine ⟨hflags', .inl ?_⟩
    rcases hwhole with hsaturated | rfl
    · exact (serverPopResponses_stream hpop).1.saturated hsaturated
    · -- everything was sent, so nothing is left
      refine absurd ?_ hzero
      have hsize : u.server.shortResponseStream.size = (v.server.shortResponseStream.advance
          (valueSize (v.server.shortResponseStream.read v.server.buffers))).size :=
        congrArg (fun s : Server => s.shortResponseStream.size) hserver
      rw [hsize, TextValue.size_advance _ hread.readable.le, hread.readable, Nat.sub_self]

/-- The client's own stream is sent to its end, or the socket is saturated. -/
theorem serverSendLongOutputBuffer_whole {now : ℤ} {answers : SendAnswer × SendAnswer}
    (hconnection : acceptingSocketIsConnection (v.server.client i).acceptingSocket = true)
    (hi : i < v.server.clients.elements.length) (hvalid : (v.server.client i).responseStream.Valid)
    (h : serverSendLongOutputBuffer i now answers v = .ok () w) :
    FlagsAfterSend v w ∧ (w.flags.saturated = true ∨ (w.server.client i).responseStream.size = 0) := by
  obtain ⟨sent, u, hsend, hrest⟩ := Outcome.andThen_eq_ok.mp h
  rw [sendValue, if_pos hconnection] at hsend
  obtain ⟨hflags, hwhole, effect, hserver⟩ := sendStream_whole hsend
  obtain ⟨_, x, hpop, hpops⟩ := Outcome.andThen_eq_ok.mp hrest
  obtain ⟨hflags', hstream⟩ := serverPopResponses_stream hpops
  obtain ⟨t, ht, rfl⟩ := Outcome.mapState_eq_ok.mp hpop
  have hflags'' := hflags.trans ⟨hflags'.saturated, hflags'.exhausted, hflags'.closed⟩
  refine ⟨hflags'', hwhole.imp hflags'.saturated fun hall => ?_⟩
  rw [hstream]
  obtain ⟨c, hc, rfl⟩ := Server.onClient_eq_ok ht
  have hclient : u.server.client i = v.server.client i := by rw [hserver]; rfl
  have hlt : i < u.server.clients.elements.length := by rw [hserver]; exact hi
  show ((u.server.setClient i c).client i).responseStream.size = 0
  rw [Server.client_setClient hlt]
  rw [hclient] at hc
  obtain ⟨stream, hstream', rfl⟩ := Outcome.mapState_eq_ok.mp hc
  have hpopped := (ringPop_spec hvalid sent).of_eq_ok (Outcome.mapError_eq_ok.mp hstream')
  show stream.size = 0
  rw [hpopped.2.2.1, hall, valueSize_eq, (ringGetAll_spec hvalid.toSound).1, hvalid.length_content,
    Nat.sub_self]

/-- All that a client has pending is sent, or the socket is saturated. -/
theorem serverSendTraffic_whole {now : ℤ} {answers : SendAnswers}
    (hconnection : acceptingSocketIsConnection (v.server.client i).acceptingSocket = true)
    (hi : i < v.server.clients.elements.length) (hvalid : (v.server.client i).responseStream.Valid)
    (hread : v.server.Readable) (h : serverSendTraffic i now answers v = .ok () w) :
    FlagsAfterSend v w ∧ (w.flags.saturated = true ∨ clientResponseStreamSize w.server i = 0) := by
  obtain ⟨size, u, hshort, hrest⟩ := Outcome.andThen_eq_ok.mp h
  obtain ⟨_, x, hlong, hend⟩ := Outcome.andThen_eq_ok.mp hrest
  -- the short stream: all of it is sent, or the socket is full
  have hu : FlagsAfterSend v u ∧ (u.flags.saturated = true ∨ u.server.owns i = false) ∧
      acceptingSocketIsConnection (u.server.client i).acceptingSocket = true ∧
      i < u.server.clients.elements.length ∧ (u.server.client i).responseStream.Valid := by
    by_cases howns : v.server.owns i = true
    · rw [if_pos howns] at hshort
      obtain ⟨_, u', hsent, hsame⟩ := Outcome.andThen_eq_ok.mp hshort
      obtain ⟨-, rfl⟩ := Outcome.ok.inj hsame
      obtain ⟨hflags, hwhole⟩ := serverSendShortResponseStream_whole hconnection hread hsent
      have hserves := (serverSendShortResponseStream_serves now answers.short).of_eq_ok hsent
      have houtput := (serverSendShortResponseStream_outputOnly now answers.short).of_eq_ok hsent
      exact ⟨hflags, hwhole.imp_right fun hnone => Server.owns_of_none hnone i,
        hserves.self.acceptingSocket ▸ hconnection, hserves.length ▸ hi, houtput.responses hvalid⟩
    · rw [if_neg howns] at hshort
      obtain ⟨-, rfl⟩ := Outcome.ok.inj hshort
      exact ⟨⟨id, rfl, rfl⟩, .inr (Bool.eq_false_iff.mpr howns), hconnection, hi, hvalid⟩
  obtain ⟨hflags, howns, hconnection', hlt, hvalid'⟩ := hu
  -- the long one, which is tried when the socket is not full
  have hx : FlagsAfterSend u x ∧ (x.flags.saturated = true ∨
      x.server.owns i = false ∧ (x.server.client i).responseStream.size = 0) := by
    by_cases hguard : u.flags.saturated = false ∧ (u.server.client i).responseStream.size > 0
    · rw [if_pos hguard] at hlong
      obtain ⟨hflags', hwhole⟩ := serverSendLongOutputBuffer_whole hconnection' hlt hvalid' hlong
      refine ⟨hflags', hwhole.imp_right fun hsize => ⟨?_, hsize⟩⟩
      rw [(serverSendLongOutputBuffer_short hconnection' hlong).owns_eq]
      exact howns.resolve_left (by rw [hguard.1]; exact Bool.false_ne_true)
    · rw [if_neg hguard] at hlong
      obtain ⟨-, rfl⟩ := Outcome.ok.inj hlong
      refine ⟨⟨id, rfl, rfl⟩, howns.elim .inl fun howns => ?_⟩
      by_cases hsaturated : u.flags.saturated = true
      · exact .inl hsaturated
      · exact .inr ⟨howns, Nat.eq_zero_of_not_pos fun hpos =>
          hguard ⟨Bool.eq_false_iff.mpr hsaturated, hpos⟩⟩
  -- the end only notes a time
  have hw : FlagsAfterSend x w ∧ (x.server.owns i = false ∧ (x.server.client i).responseStream.size = 0 →
      clientResponseStreamSize w.server i = 0) := by
    dsimp only at hend
    split_ifs at hend
    · obtain ⟨-, rfl⟩ := Outcome.ok.inj hend
      refine ⟨⟨id, rfl, rfl⟩, fun hnothing => ?_⟩
      have howns' : (x.server.setClient i { x.server.client i with
        lastResponseStreamNotFull := now }).owns i = false := hnothing.1
      rw [clientResponseStreamSize, howns']
      exact Server.client_setClient_of (P := fun c => c.responseStream.size = 0) hnothing.2 hnothing.2
    · obtain ⟨-, rfl⟩ := Outcome.ok.inj hend
      refine ⟨⟨id, rfl, rfl⟩, fun hnothing => ?_⟩
      rw [clientResponseStreamSize, hnothing.1, hnothing.2]
      rfl
  exact ⟨(hflags.trans hx.1).trans hw.1, hx.2.imp hw.1.saturated hw.2⟩

/-! ## What is left to do -/

/-- How many flags of the connection are not set. -/
def ConnectionFlags.unset (flags : ConnectionFlags) : ℕ :=
  (!flags.saturated).toNat + (!flags.exhausted).toNat + (!flags.closed).toNat

/-- Whether some of the request stream is not parsed. -/
def Client.unparsed (client : Client) : Bool :=
  client.progress.request.streamSize < client.requestStream.size

/-- What is left to do in a visit of client `i` if no more bytes come: three for each byte and each flag, two
for bytes to parse and one for bytes to send. -/
def Visit.work (i : ℕ) (v : Visit) : ℕ :=
  3 * ((v.server.client i).requestStream.size + v.flags.unset) +
    2 * (v.server.client i).unparsed.toNat + (getMakesSenseToSend v.server i).toNat

/-- Client `i` is a connection that can be worked for. -/
structure Visit.Servable (i : ℕ) (v : Visit) : Prop where
  lt : i < v.server.clients.elements.length
  connection : acceptingSocketIsConnection (v.server.client i).acceptingSocket = true
  workable : (v.server.client i).Workable
  readable : v.server.Readable

theorem Visit.Servable.on (h : v.Servable i) (hserves : Serves i v.server w.server)
    (hattends : Attends i v.server w.server) (hworkable : (w.server.client i).Workable) : w.Servable i :=
  ⟨hserves.length ▸ h.lt, hserves.self.acceptingSocket ▸ h.connection, hworkable,
    hattends.readable h.readable⟩

/-- The flags are three. -/
theorem ConnectionFlags.unset_le (flags : ConnectionFlags) : flags.unset ≤ 3 := by
  have hsaturated := Bool.toNat_le (!flags.saturated)
  have hexhausted := Bool.toNat_le (!flags.exhausted)
  have hclosed := Bool.toNat_le (!flags.closed)
  rw [ConnectionFlags.unset]
  omega

/-- A visit begins with at most three flags to set. -/
theorem Visit.work_le (i : ℕ) (v : Visit) :
    v.work i ≤ 3 * (v.server.client i).requestStream.size + 12 := by
  have hunset := v.flags.unset_le
  have hunparsed := Bool.toNat_le (v.server.client i).unparsed
  have hsend := Bool.toNat_le (getMakesSenseToSend v.server i)
  rw [Visit.work]
  omega

/-! ## The end of a client -/

/-- A client that has nothing pending has nothing pending after it is finalized. -/
theorem finalizeClient_size (hi : i < s.clients.elements.length) (hzero : clientResponseStreamSize s i = 0) :
    clientResponseStreamSize (finalizeClient i s) i = 0 := by
  have hfinalized : ∀ t : Server, t.clients = s.clients → t.shortResponseStream = s.shortResponseStream →
      t.shortResponseStreamOwner = s.shortResponseStreamOwner →
      clientResponseStreamSize (clientFinalize i t) i = 0 := by
    intro t hclients hstream howner
    have hlt : i < t.clients.elements.length := by rwa [hclients]
    have hclient : t.client i = s.client i := by rw [Server.client, Server.client, hclients]
    have howns : t.owns i = s.owns i := by rw [Server.owns, Server.owns, howner, Server.pointer,
      Server.pointer, hclients]
    have hsize : clientResponseStreamSize t i = 0 := by
      rw [← hzero, clientResponseStreamSize, clientResponseStreamSize, hclient, howns, hstream]
    rw [clientResponseStreamSize, Nat.add_eq_zero_iff] at hsize
    have hempty : ((clientFinalize i t).client i).responseStream.size = 0 := by
      rw [clientFinalize_eq]
      show ((t.setClient i (t.client i).finalized).client i).responseStream.size = 0
      rw [Server.client_setClient hlt]
      rfl
    rw [clientResponseStreamSize, hempty, Nat.zero_add, clientFinalize_eq]
    by_cases hmessage : t.shortRequestMessageOwner = some (t.pointer i)
    · rw [if_pos hmessage, if_pos hmessage]
      rfl
    · rw [if_neg hmessage, if_neg hmessage]
      exact hsize.2
  unfold finalizeClient pollFinalize
  split_ifs
  · rcases (s.poll (pollIndex s i)).fd with _ | fd
    · exact hfinalized s rfl rfl rfl
    · exact hfinalized _ rfl rfl rfl
  · exact hfinalized s rfl rfl rfl

/-- Client `i` was finalized, and nothing is left to do for it. -/
structure Visit.Ended (i : ℕ) (now : ℤ) (v : Visit) : Prop where
  nothingToDo : NothingToDo i now v
  dead : (v.server.client i).dead = true

/-- Nothing is left to do for a client that is finalized after all was sent, because its connection is
closed or because it has had its last request. -/
theorem Visit.Servable.finalize (h : v.Servable i) (hfirst : v.first = false)
    (hzero : clientResponseStreamSize v.server i = 0)
    (hwhy : v.flags.closed = true ∨ (v.server.client i).progress.parser.state = .end) (now : ℤ) :
    ({ v with server := finalizeClient i v.server } : Visit).Ended i now ∧
      ({ v with server := finalizeClient i v.server } : Visit).work i = 3 * v.flags.unset := by
  have hclient := finalizeClient_client h.lt
  have hsize := finalizeClient_size h.lt hzero
  have hsend : getMakesSenseToSend (finalizeClient i v.server) i = false := by
    rw [getMakesSenseToSend, hsize]
    rfl
  have hempty : ((finalizeClient i v.server).client i).requestStream.size = 0 := by
    rw [hclient]
    rfl
  refine ⟨⟨⟨fun hfirst' => absurd (hfirst.symm.trans hfirst') Bool.false_ne_true, ?_, ?_, .inr hsend⟩,
    congrArg Client.dead hclient⟩, ?_⟩
  · rcases hwhy with hclosed | hend
    · exact .inr (.inl hclosed)
    · refine .inr (.inr ?_)
      have hmessage := not_message_of_connection h.connection
      simp [getMakesSenseToReceive, hclient, Client.finalized, hend, hmessage]
  · simp [getMakesSenseToParse, hempty]
  · show 3 * (((finalizeClient i v.server).client i).requestStream.size + v.flags.unset) +
      2 * ((finalizeClient i v.server).client i).unparsed.toNat +
        (getMakesSenseToSend (finalizeClient i v.server) i).toNat = _
    have hunparsed : ((finalizeClient i v.server).client i).unparsed = false := by
      rw [Client.unparsed, hempty]
      exact decide_eq_false (Nat.not_lt_zero _)
    rw [hempty, hsend, hunparsed, Nat.zero_add]
    rfl

/-! ## Rounds -/

theorem roundFirst_yields (now : ℤ) :
    (roundFirst i now v).Yields fun _ w => w = { v with first := false } := by
  unfold roundFirst
  by_cases hfirst : v.first = true
  · rw [if_pos hfirst]
    dsimp only
    split_ifs
    · exact trivial
    · rcases checkTimeouts v.server i now none with e | remaining
      · exact trivial
      · exact rfl
  · rw [if_neg hfirst, ← Bool.eq_false_iff.mpr hfirst]
    exact rfl

/-- A client with as many bytes as fit, of which a request is unfinished, can be parsed. -/
theorem Visit.Servable.parses (h : v.Servable i) (hstate : (v.server.client i).progress.parser.state ≠ .end)
    (hroom : clientResponseStreamSize v.server i < maxResponseStreamSize)
    (hfull : maxRequestStreamSize ≤ (v.server.client i).requestStream.size) :
    getMakesSenseToParse v.server i = true := by
  have hunfinished := h.workable.unfinished hstate
  have hmax : maxRequestSize ≤ maxRequestStreamSize := by decide
  simp only [getMakesSenseToParse, Bool.and_eq_true, decide_eq_true_eq]
  exact ⟨⟨⟨h.workable.plain.operational, hstate⟩, by omega⟩, hroom⟩

/-- The block that receives does nothing, or lowers what is left to do but for the bytes that came, or finds
the request stream full, which the next block resolves. -/
theorem roundReceive_lowers (h : v.Servable i) (hfirst : v.first = false) (now : ℤ)
    (answers : RoundAnswers) :
    (roundReceive i now answers.receive v).Yields fun finalized w =>
      if finalized then w.Ended i now ∧ w.work i < v.work i
      else w = v ∨ w.Servable i ∧ w.first = false ∧ (w.work i < v.work i + 6 * answers.offered ∨
        w.work i ≤ v.work i + 6 * answers.offered ∧ getMakesSenseToParse w.server i = true) := by
  unfold roundReceive
  by_cases hguard : v.flags.exhausted = false ∧ v.flags.closed = false ∧
      getMakesSenseToReceive v.server i = true
  swap
  · rw [if_neg hguard]
    exact .inl rfl
  rw [if_pos hguard]
  obtain ⟨hexhausted, hclosed, hsense⟩ := hguard
  have hreceive : (serverReceiveTraffic i now answers.receive { v with doneSomething := true }).Yields
      fun _ w => w.Servable i ∧ TrafficReceived i v w ∧ (w.server.client i).requestStream.size
        ≤ (v.server.client i).requestStream.size + answers.offered := by
    refine ((((serverReceiveTraffic_received (v := { v with doneSomething := true }) h.lt h.connection
      h.workable now answers.receive).and (serverReceiveTraffic_offered (v := { v with doneSomething := true })
        h.lt h.connection h.workable now answers)).and (serverReceiveTraffic_serves now
          answers.receive).yields).and (serverReceiveTraffic_attends now answers.receive).yields).mono ?_
    rintro _ w ⟨⟨⟨hreceived, hoffered⟩, hserves⟩, hattends⟩
    exact ⟨h.on hserves hattends hreceived.workable, ⟨hreceived.workable, hreceived.progress,
      hreceived.output, hreceived.saturated, hreceived.first, hreceived.grown, hreceived.got⟩, hoffered⟩
  refine hreceive.andThen fun _ w hw => ?_
  obtain ⟨hservable, hreceived, hoffered⟩ := hw
  have hwfirst := hreceived.first.trans hfirst
  -- receiving is no output, and sets only the flags of its own
  have hsend : getMakesSenseToSend w.server i = getMakesSenseToSend v.server i := by
    rw [getMakesSenseToSend, getMakesSenseToSend, hreceived.output]
  have hunset : v.flags.unset = (!v.flags.saturated).toNat + 2 := by
    rw [ConnectionFlags.unset, hexhausted, hclosed]
    rfl
  have hunset' : w.flags.unset = (!v.flags.saturated).toNat + (!w.flags.exhausted).toNat +
      (!w.flags.closed).toNat := by
    rw [ConnectionFlags.unset, hreceived.saturated]
  by_cases hterminated : clientTerminated i w = true
  · -- the peer has closed, and there is nothing to be sent: a flag more is set
    rw [if_pos hterminated]
    refine (assertAll_spec _ w).yields.andThen fun _ x hx => ?_
    obtain ⟨rfl, hchecks⟩ := hx
    have hzero : clientResponseStreamSize x.server i = 0 := by
      have hcheck := hchecks (clientResponseStreamSize x.server i = 0,
        "client_response_stream_size(client) == 0") (by simp [clientTerminatedChecks])
      exact of_decide_eq_true hcheck
    have hflag : x.flags.closed = true := by
      simp only [clientTerminated, hservable.workable.plain.operational, Bool.or_eq_true, Bool.and_eq_true,
        decide_eq_true_eq, reduceCtorEq, false_and, or_false] at hterminated
      exact hterminated
    obtain ⟨hended, hwork⟩ := hservable.finalize hwfirst hzero (.inl hflag) now
    refine ⟨hended, ?_⟩
    have hexhausted' := Bool.toNat_le (!x.flags.exhausted)
    rw [hflag] at hunset'
    rw [hwork, Visit.work, hunset, hunset']
    show 3 * (_ + _ + 0) < _
    omega
  · rw [if_neg hterminated]
    refine .inr ⟨hservable, hwfirst, ?_⟩
    have hexhausted' := Bool.toNat_le (!w.flags.exhausted)
    have hclosed' := Bool.toNat_le (!w.flags.closed)
    have hunparsed' := Bool.toNat_le (w.server.client i).unparsed
    have hwork := Visit.work.eq_def i v
    have hwork' := Visit.work.eq_def i w
    rw [hsend, hunset'] at hwork'
    rw [hunset] at hwork
    by_cases hfull : maxRequestStreamSize ≤ (v.server.client i).requestStream.size
    · -- nothing fits, and the parser is next
      have hle := hservable.workable.size_le
      have hgrown := hreceived.grown
      have hsame : (w.server.client i).requestStream.size = (v.server.client i).requestStream.size := by omega
      have hunparsed : (w.server.client i).unparsed = (v.server.client i).unparsed := by
        rw [Client.unparsed, Client.unparsed, hreceived.progress, hsame]
      rw [hunparsed] at hwork'
      refine .inr ⟨by omega, ?_⟩
      simp only [getMakesSenseToReceive, Bool.and_eq_true, Bool.or_eq_true, decide_eq_true_eq] at hsense
      have hstate := hsense.1.2.resolve_right (not_message_of_connection h.connection)
      exact hservable.parses (hreceived.progress ▸ hstate) (hreceived.output ▸ hsense.2) (by omega)
    · -- bytes have come, which the offer pays for, or a flag was set
      refine .inl ?_
      rcases hreceived.got (Nat.lt_of_not_le hfull) with hmore | hflag | hflag
      · omega
      · rw [hflag] at hunset' hwork'
        have hset : (!true).toNat = 0 := rfl
        omega
      · rw [hflag] at hunset' hwork'
        have hset : (!true).toNat = 0 := rfl
        omega

/-- The block that parses and processes does nothing, or lowers what is left to do. -/
theorem roundParse_lowers (h : v.Servable i) (now : ℤ) (answers : ProcessAnswers)
    (shutdown : ShutdownAnswers) :
    (roundParse i now answers shutdown v).Yields fun _ w =>
      w = v ∧ getMakesSenseToParse v.server i = false ∨
        w.Servable i ∧ w.first = v.first ∧ w.work i < v.work i := by
  unfold roundParse
  by_cases hguard : getMakesSenseToParse v.server i = true
  swap
  · rw [if_neg hguard]
    exact .inl ⟨rfl, Bool.eq_false_iff.mpr hguard⟩
  rw [if_pos hguard]
  have hsense := hguard
  simp only [getMakesSenseToParse, Bool.and_eq_true, decide_eq_true_eq] at hsense
  have hprocess : (({ v with doneSomething := true } : Visit).onServer
      (serverProcessTraffic i now answers)).Yields fun _ w => w.Servable i ∧ w.flags = v.flags ∧
        w.first = v.first ∧
        ((w.server.client i).requestStream.size < (v.server.client i).requestStream.size ∨
          (w.server.client i).requestStream.size = (v.server.client i).requestStream.size ∧
            (w.server.client i).progress.request.streamSize = (w.server.client i).requestStream.size) := by
    refine (((serverProcessTraffic_workable h.lt h.workable hsense.1.1.2 now answers).and
      (serverProcessTraffic_serves now answers).yields).and
        (serverProcessTraffic_attends now answers).yields).mapState ?_
    rintro _ t ⟨⟨⟨hworkable, hless⟩, hserves⟩, hattends⟩
    have hservable := h.on (w := { v with doneSomething := true, server := t }) hserves hattends hworkable
    exact ⟨hservable, rfl, rfl, hless⟩
  refine hprocess.andThen fun _ w hw => ?_
  obtain ⟨hservable, hflags, hfirst, hless⟩ := hw
  rw [if_neg (by simp [hservable.workable.plain.ssl])]
  refine .inr ⟨hservable, hfirst, ?_⟩
  have hunparsed : (v.server.client i).unparsed = true := decide_eq_true hsense.1.2
  have hunparsed' := Bool.toNat_le (w.server.client i).unparsed
  have hsend := Bool.toNat_le (getMakesSenseToSend w.server i)
  rw [Visit.work, Visit.work, hunparsed, hflags, Bool.toNat_true]
  rcases hless with hless | ⟨hsame, hall⟩
  · omega
  · have hparsed : (w.server.client i).unparsed = false := by
      rw [Client.unparsed, hall]
      exact decide_eq_false (Nat.lt_irrefl _)
    rw [hparsed, hsame, Bool.toNat_false]
    omega

/-- The block that sends does nothing, or lowers what is left to do. -/
theorem roundSend_lowers (h : v.Servable i) (hfirst : v.first = false) (now : ℤ) (answers : SendAnswers) :
    (roundSend i now answers v).Yields fun _ w =>
      w = v ∨ (w.Servable i ∨ w.Ended i now) ∧ w.work i < v.work i := by
  unfold roundSend
  by_cases hguard : v.flags.saturated = false ∧ getMakesSenseToSend v.server i = true
  swap
  · rw [if_neg hguard]
    exact .inl rfl
  rw [if_pos hguard]
  obtain ⟨hunsaturated, hsense⟩ := hguard
  -- the socket is full, which sets a flag, or nothing is left to be sent
  have hsend : (serverSendTraffic i now answers { v with doneSomething := true }).Yields fun _ w =>
      w.Servable i ∧ w.first = false ∧ w.work i < v.work i := by
    refine Outcome.yields_of_forall fun _ w hreturns => ?_
    have houtput := (serverSendTraffic_outputOnly now answers).of_eq_ok hreturns
    have hserves := (serverSendTraffic_serves now answers).of_eq_ok hreturns
    have hattends := (serverSendTraffic_attends now answers).of_eq_ok hreturns
    have hround := (serverSendTraffic_filled (v := { v with doneSomething := true }) h.connection hreturns).2
    obtain ⟨hflags, hwhole⟩ := serverSendTraffic_whole (v := { v with doneSomething := true }) h.connection
      h.lt h.workable.plain.stream h.readable hreturns
    have hstream : (w.server.client i).requestStream = (v.server.client i).requestStream :=
      houtput.requestStream
    have hprogress : (w.server.client i).progress = (v.server.client i).progress := houtput.progress
    have hexhausted : w.flags.exhausted = v.flags.exhausted := hflags.exhausted
    have hclosed : w.flags.closed = v.flags.closed := hflags.closed
    have hplain := h.workable.plain
    have hworkable : (w.server.client i).Workable :=
      ⟨⟨houtput.cryptographyState.trans hplain.operational, houtput.ssl.trans hplain.ssl,
          hstream ▸ hplain.requests, by
            rw [hprogress, hstream, hserves.self.acceptingSocket]
            exact hplain.parse, houtput.responses hplain.stream⟩,
        hstream ▸ h.workable.size_le, hprogress ▸ h.workable.unfinished, hprogress ▸ h.workable.headed⟩
    refine ⟨h.on hserves hattends hworkable, hround.first.trans hfirst, ?_⟩
    have hunparsed : (w.server.client i).unparsed = (v.server.client i).unparsed := by
      rw [Client.unparsed, Client.unparsed, hprogress, hstream]
    have hsaturated := Bool.toNat_le (!w.flags.saturated)
    have hsend' := Bool.toNat_le (getMakesSenseToSend w.server i)
    rw [Visit.work, Visit.work, ConnectionFlags.unset, ConnectionFlags.unset, hexhausted, hclosed, hunparsed,
      hstream, hunsaturated, hsense, Bool.not_false, Bool.toNat_true]
    rcases hwhole with hset | hzero
    · rw [hset, Bool.not_true, Bool.toNat_false]
      omega
    · have hnothing : getMakesSenseToSend w.server i = false := by
        rw [getMakesSenseToSend, hzero]
        rfl
      rw [hnothing, Bool.toNat_false]
      omega
  refine hsend.andThen fun _ w hw => ?_
  obtain ⟨hservable, hwfirst, hless⟩ := hw
  -- a client that is finalized has less to do
  by_cases hterminates : serverTerminates i w.server = true
  swap
  · rw [if_neg hterminates]
    exact .inr ⟨.inl hservable, hless⟩
  rw [if_pos hterminates]
  refine (assertAll_spec _ w).yields.andThen fun _ x hx => ?_
  obtain ⟨rfl, -⟩ := hx
  simp only [serverTerminates, hservable.workable.plain.ssl, Bool.or_eq_true, Bool.and_eq_true,
    decide_eq_true_eq, Bool.false_eq_true, false_and, or_false, decide_true, true_and] at hterminates
  obtain ⟨hended, hwork⟩ := hservable.finalize hwfirst hterminates.2 (.inr hterminates.1) now
  refine .inr ⟨.inr hended, Nat.lt_of_le_of_lt ?_ hless⟩
  rw [hwork, Visit.work]
  omega

theorem Visit.Servable.hasRoom (h : v.Servable i) : v.server.HasRoom i :=
  ⟨h.lt, ⟨h.workable.plain.ssl, h.workable.plain.requests, h.workable.size_le⟩, fun hmessage =>
    absurd hmessage (not_message_of_connection h.connection)⟩

/-- A round that does something lowers what is left to do, but for the bytes that came. -/
theorem serverProcessClientRound_lowers (h : v.Servable i) (hidle : v.doneSomething = false) (now : ℤ)
    (answers : RoundAnswers) :
    (serverProcessClientRound i now answers v).Yields fun _ w => (w.Servable i ∨ w.Ended i now) ∧
      (w.doneSomething = true → w.work i < v.work i + 6 * answers.offered) := by
  rw [serverProcessClientRound_eq_roundBlocks h.hasRoom]
  unfold roundBlocks
  refine (roundFirst_yields now).andThen fun _ u hu => ?_
  have hservable : u.Servable i := hu ▸ ⟨h.lt, h.connection, h.workable, h.readable⟩
  have hufirst : u.first = false := hu ▸ rfl
  have hwork : u.work i = v.work i := hu ▸ rfl
  have hidle' : u.doneSomething = false := by rw [hu]; exact hidle
  rw [← hwork]
  refine (roundReceive_lowers hservable hufirst now answers).andThen fun finalized w hw => ?_
  by_cases hfinalized : finalized = true
  · rw [if_pos hfinalized] at hw ⊢
    exact ⟨.inr hw.1, fun _ => Nat.lt_of_lt_of_le hw.2 (Nat.le_add_right _ _)⟩
  rw [if_neg hfinalized] at hw ⊢
  have hwservable : w.Servable i := hw.elim (fun hsame => hsame ▸ hservable) fun hw => hw.1
  have hwfirst : w.first = false := hw.elim (fun hsame => hsame ▸ hufirst) fun hw => hw.2.1
  refine (roundParse_lowers hwservable now answers.process answers.shutdown).andThen fun _ x hx => ?_
  have hxservable : x.Servable i := hx.elim (fun hsame => hsame.1 ▸ hwservable) fun hx => hx.1
  have hxfirst : x.first = false := hx.elim (fun hsame => hsame.1 ▸ hwfirst) fun hx => hx.2.1.trans hwfirst
  -- after the first two blocks
  have hlower : x = u ∨ x.work i < u.work i + 6 * answers.offered := by
    rcases hw with rfl | ⟨-, -, hless | ⟨hle, hsense⟩⟩
    · rcases hx with ⟨rfl, -⟩ | ⟨-, -, hless⟩
      · exact .inl rfl
      · exact .inr (Nat.lt_of_lt_of_le hless (Nat.le_add_right _ _))
    · rcases hx with ⟨rfl, -⟩ | ⟨-, -, hless'⟩
      · exact .inr hless
      · exact .inr (hless'.trans hless)
    · rcases hx with ⟨rfl, hsense'⟩ | ⟨-, -, hless'⟩
      · exact absurd (hsense.symm.trans hsense') Bool.noConfusion
      · exact .inr (Nat.lt_of_lt_of_le hless' hle)
  refine (roundSend_lowers hxservable hxfirst now answers.send).mono fun _ y hy => ?_
  rcases hy with rfl | ⟨hy, hless⟩
  · refine ⟨.inl hxservable, fun hdone => hlower.resolve_left fun hsame => ?_⟩
    rw [hsame, hidle'] at hdone
    cases hdone
  · refine ⟨hy, fun _ => ?_⟩
    rcases hlower with rfl | hless'
    · exact Nat.lt_of_lt_of_le hless (Nat.le_add_right _ _)
    · exact hless.trans hless'

/-- Nothing is done in a round after the client ended. -/
theorem Visit.Ended.round (h : v.Ended i now) (answers : RoundAnswers) :
    serverProcessClientRound i now answers { v with doneSomething := false }
      = .ok () { v with doneSomething := false, first := false } := by
  rw [serverProcessClientRound, roundBlocks_quiet (v := { v with doneSomething := false })
    ⟨h.nothingToDo.first, h.nothingToDo.receive, h.nothingToDo.parse, h.nothingToDo.send⟩]
  rfl

/-! ## Visits -/

/-- Every round of a visit is paid for by what was there to do when the visit began, or by bytes that came
while it lasted. -/
theorem LoopReaches.paid {now : ℤ} {answers : VisitAnswers} {l : ℕ}
    (h : LoopReaches i now answers 0 v l w) (hv : v.Servable i) :
    (w.Servable i ∨ w.Ended i now) ∧
      l + w.work i ≤ v.work i + 6 * ∑ m ∈ Finset.range l, (answers.rounds m).offered := by
  induction h with
  | start => exact ⟨.inl hv, by simp⟩
  | @round l u w before returns doneSomething ih =>
    obtain ⟨hu | hu, hpaid⟩ := ih
    · have hidle : ({ u with doneSomething := false } : Visit).Servable i :=
        ⟨hu.lt, hu.connection, hu.workable, hu.readable⟩
      obtain ⟨hw, hless⟩ := (serverProcessClientRound_lowers hidle rfl now _).of_eq_ok returns
      have hless := hless doneSomething
      have hsame : ({ u with doneSomething := false } : Visit).work i = u.work i := rfl
      refine ⟨hw, ?_⟩
      rw [Finset.sum_range_succ]
      omega
    · rw [hu.round] at returns
      obtain ⟨-, rfl⟩ := Outcome.ok.inj returns
      cases doneSomething

/-- After a visit the client can still be worked for, or is dead. -/
theorem serverProcessClientLoop_workable (now remaining : ℤ) (answers : VisitAnswers) (fuel k : ℕ)
    (h : v.Servable i ∨ v.Ended i now) :
    (serverProcessClientLoop i now remaining answers fuel k v).Yields fun _ t =>
      (t.client i).dead = false → (t.client i).Workable := by
  have hwaits : ∀ w : Visit, w.Servable i ∨ w.Ended i now →
      ((prepareToWait i now remaining w.server).1.client i).dead = false →
        ((prepareToWait i now remaining w.server).1.client i).Workable := by
    intro w hw
    rw [prepareToWait_client]
    rcases hw with hservable | hended
    · exact fun _ => hservable.workable
    · exact fun hlive => absurd (hended.dead.symm.trans hlive) Bool.noConfusion
  induction fuel generalizing k v with
  | zero => exact trivial
  | succ fuel ih =>
    rcases h with hservable | hended
    swap
    · rw [serverProcessClientLoop_quiet hended.nothingToDo]
      exact hwaits v (.inr hended)
    have hidle : ({ v with doneSomething := false } : Visit).Servable i :=
      ⟨hservable.lt, hservable.connection, hservable.workable, hservable.readable⟩
    rw [serverProcessClientLoop]
    refine Outcome.Meets.handle ((Outcome.Meets.and (serverProcessClientRound_lowers hidle rfl now
      (answers.rounds k)) (serverProcessClientRound_visited hidle.lt now (answers.rounds k))).of_imp
        fun _ => trivial) (fun _ w hw => ?_) fun e w hw => ?_
    · split_ifs
      · exact ih (k + 1) hw.1.1
      · exact hwaits w hw.1.1
    · have hlt : i < w.server.clients.elements.length := hw.2.length ▸ hservable.lt
      refine (failureActions_finalized hlt answers.taken e).andThen fun _ t ht => ?_
      obtain ⟨client, hclient⟩ := ht
      show (t.client i).dead = false → (t.client i).Workable
      rw [hclient]
      exact fun hlive => absurd hlive Bool.true_eq_false.mp

/-! ## Runs -/

/-- A connection that is not encrypted and not finalized can be worked for. -/
def Client.WorkableIfPlain (client : Client) : Prop :=
  client.encrypted = false → acceptingSocketIsConnection client.acceptingSocket = true →
    client.dead = false → client.Workable

theorem Client.WorkableIfPlain.shuffled {client : Client} (h : client.WorkableIfPlain) (k : ℕ) :
    ({ client with shuffleIndex := k } : Client).WorkableIfPlain := by
  intro hplain hconnection hlive
  obtain ⟨⟨hoperational, hssl, hrequests, hparse, hstream⟩, hle, hunfinished, hheaded⟩ :=
    h hplain hconnection hlive
  exact ⟨⟨hoperational, hssl, hrequests, hparse, hstream⟩, hle, hunfinished, hheaded⟩

theorem Client.Made.workable {client : Client} (h : client.Made) : client.WorkableIfPlain := by
  intro hplain hconnection _
  rcases h with ⟨-, hreturns⟩ | ⟨hmessage, rfl⟩
  · have hsocket := (initializeClient_identity hreturns).acceptingSocket
    unfold initializeClient at hreturns
    rw [Client.encrypted, hsocket] at hplain
    rw [if_neg (by rw [← Bool.not_eq_true] at hplain; exact hplain)] at hreturns
    obtain ⟨-, rfl⟩ := Outcome.ok.inj hreturns
    have hbegun : Progress.zero.request.streamSize < maxRequestSize := by decide
    exact ⟨⟨rfl, rfl, Ring.zero_valid, fun _ => Progress.zero_parseInv _ _, Ring.zero_valid⟩,
      Nat.zero_le _, fun _ => hbegun, fun hheaded => absurd hheaded (by rintro (h | h) <;> cases h)⟩
  · exact absurd (hmessage.symm.trans hconnection) Bool.noConfusion

/-- After a visit everybody who is not encrypted and not finalized can be worked for. -/
theorem serverProcessClient_workable (hi : i < s.clients.elements.length) (hshort : s.ShortSound)
    (h : s.All Client.WorkableIfPlain) (now remaining : ℤ) (answers : VisitAnswers) (fuel : ℕ) :
    (serverProcessClient i now remaining answers fuel s).Yields fun _ t => t.All Client.WorkableIfPlain := by
  refine Outcome.yields_of_forall fun remaining' t hreturns j hj hplain hconnection hlive => ?_
  have hvisited := (serverProcessClient_visited hi now remaining answers fuel).of_eq_ok hreturns
  have hattended := (serverProcessClient_attended now remaining answers fuel).of_eq_ok hreturns
  have hj' : j < s.clients.elements.length := hvisited.length ▸ hj
  by_cases hji : j = i
  · subst hji
    have hself := hvisited.self.acceptingSocket
    obtain ⟨more, -, hfate⟩ := hvisited.fate
    have hbefore : (s.client j).dead = false := by
      cases hfate with
      | lives dead => exact dead.symm.trans hlive
      | dies dead => exact absurd (dead.symm.trans hlive) Bool.noConfusion
    rw [Client.encrypted, hself] at hplain
    rw [hself] at hconnection
    have hservable : (startVisit j s).Servable j :=
      ⟨hi, hconnection, h j hi hplain hconnection hbefore, hshort.readable⟩
    exact (serverProcessClientLoop_workable now remaining answers fuel 0 (.inl hservable)).of_eq_ok hreturns
      hlive
  · obtain ⟨stream, hstream⟩ := hvisited.others j hji
    rw [hstream] at hplain hconnection hlive
    have hworkable := h j hj' hplain hconnection hlive
    have hvalid := (hattended.spared hshort.linked j hj' hji hworkable.plain.stream).valid
    rw [hstream] at hvalid ⊢
    exact ⟨⟨hworkable.plain.operational, hworkable.plain.ssl, hworkable.plain.requests,
      hworkable.plain.parse, hvalid⟩, hworkable.size_le, hworkable.unfinished, hworkable.headed⟩

/-- In every run whoever is not encrypted and not finalized can be worked for. -/
theorem serverRun_workable {polls : Buffer Poll} (hpolls : polls.elements.length = acceptingSockets)
    {inputs : List ServerInput} {state : Phase × Server}
    (hrun : Runs ServerStep (startState polls) inputs state) :
    Tabled state ∧ state.2.ShortSound ∧ state.2.All Client.WorkableIfPlain := by
  have hrun' : Runs (StepsWhere (fun _ _ => True) ServerStep) (startState polls) inputs state :=
    hrun.mono fun _ _ _ hstep => ⟨trivial, hstep⟩
  exact serverRun_clients hpolls (fun _ hmade => hmade.workable) (fun _ k h => h.shuffled k)
    (fun now remaining _ _ _ answers fuel hlt _ hshort h =>
      serverProcessClient_workable hlt hshort h now remaining answers fuel) hrun'

/-- In every run a visit of a connection that is not encrypted makes no more rounds than a multiple of the
bytes that are in the request stream when it begins and of those that its reads could deliver. -/
theorem serverRun_rounds_le {polls : Buffer Poll} (hpolls : polls.elements.length = acceptingSockets)
    {inputs : List ServerInput} {phase : Phase} (hrun : Runs ServerStep (startState polls) inputs (phase, s))
    (hi : i < s.clients.elements.length) (hplain : (s.client i).encrypted = false)
    (hconnection : acceptingSocketIsConnection (s.client i).acceptingSocket = true)
    (hlive : (s.client i).dead = false) {answers : VisitAnswers} {l : ℕ}
    (hreaches : LoopReaches i now answers 0 (startVisit i s) l w) :
    l ≤ 3 * (s.client i).requestStream.size + 12 +
      6 * ∑ m ∈ Finset.range l, (answers.rounds m).offered := by
  obtain ⟨-, hshort, hall⟩ := serverRun_workable hpolls hrun
  have hservable : (startVisit i s).Servable i :=
    ⟨hi, hconnection, hall i hi hplain hconnection hlive, hshort.readable⟩
  have hpaid := (hreaches.paid hservable).2
  have hwork := (startVisit i s).work_le i
  show l ≤ 3 * ((startVisit i s).server.client i).requestStream.size + 12 + _
  omega

/-- A reader sends three bytes, and is served in one round. -/
theorem serverRun_rounds_le_reader : ∃ inputs s w,
    Runs ServerStep (startState listening) inputs (.visiting 0 intMax [0], s) ∧
    LoopReaches 0 0 readerVisit 0 (startVisit 0 s) 1 w ∧
    1 ≤ 3 * (s.client 0).requestStream.size + 12 +
      6 * ∑ m ∈ Finset.range 1, (readerVisit.rounds m).offered := by
  obtain ⟨inputs, s, hrun, ⟨-, hlength, hplain, hconnection, hlive⟩, ⟨v, w, hround, hbusy, -⟩, -⟩ :=
    reader_begins
  have hsteps : Runs ServerStep (startState listening) inputs (.visiting 0 intMax [0], s) :=
    hrun.mono fun _ _ _ hstep => hstep.2
  have hreaches : LoopReaches 0 0 readerVisit 0 (startVisit 0 s) 1 v := .round .start hround hbusy
  exact ⟨inputs, s, v, hsteps, hreaches, serverRun_rounds_le rfl hsteps (by rw [hlength]; exact Nat.one_pos)
    hplain hconnection hlive hreaches⟩

end Twinkleshine
