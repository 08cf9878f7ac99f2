import Twinkleshine.Server.Owner

/-!
# Error packages

Reference: `processor_process_guppy` and `processor_fixed_guppy` in `source/processor/guppy_processor.c`,
`server_send_short_response_stream` and `server_send_long_output_buffer` in `source/server/send.c`.

The answer to a resource that is no page is enqueued as one package without chunks. The sender wants to
know how long the number of the last chunk is, and the number of the chunk before the first is the
greatest there is.
-/

namespace Twinkleshine

open Library

variable {i acceptingSocket : ℕ} {now : ℤ} {response : Response} {package : List UInt8} {v : Visit}

/-! ## Responses without chunks -/

/-- What the processor of Guppy enqueues as one package: the answers to resources that are no page, and
the fixed responses. -/
inductive ErrorPackage (acceptingSocket : ℕ) : Response → List UInt8 → Prop
  | invalidResource {request : Request} {lookup : Lookup} {env : ProcessorEnvironment}
      {s t : ProcessorState} {response : Response} {stream : TextValue}
      (hpage : env.page = .invalidResource)
      (h : processorProcess acceptingSocket request lookup env s = .ok (response, stream) t) :
      ErrorPackage acceptingSocket response (stream.read t.buffers).bytes
  | fixed {fixed : ℕ} {realloc : Realloc} {queue r : Ring} {response : Response}
      {stream : ConstantValue}
      (h : processorFixed acceptingSocket fixed realloc queue = .ok (response, stream) r) :
      ErrorPackage acceptingSocket response stream.bytes

/-- A response without chunks, whose first chunk has no number. -/
def Response.Unchunked (response : Response) : Prop :=
  response.firstChunk = 0 ∧ response.chunks.size = 0

theorem processorProcessStatic_unchunked {text : List UInt8} {request : Request} {lookup : Lookup}
    {env : ProcessorEnvironment} {s t : ProcessorState} {stream : TextValue}
    (h : processorProcessStatic text request lookup env s = .ok (response, stream) t) :
    response.Unchunked := by
  rw [processorProcessStatic] at h
  rcases hwords : requestWords lookup request with e | ⟨method, resource, protocol⟩
  · rw [hwords] at h
    cases h
  · rw [hwords] at h
    obtain ⟨enqueued, u, hconstruct, hreturn⟩ := Outcome.andThen_eq_ok.mp h
    obtain ⟨queue, hconstruct, -⟩ := Outcome.mapState_eq_ok.mp hconstruct
    injection hreturn with hpair
    obtain rfl : enqueued = response := congrArg Prod.fst hpair
    rw [processorConstructResponse_value hconstruct]
    exact ⟨rfl, rfl⟩

/-- The protocol of a message-based accepting socket. -/
theorem acceptingSocketProtocol_guppy (h : acceptingSocketIsGuppy acceptingSocket = true) :
    acceptingSocketProtocol acceptingSocket = .guppy := by
  have hle : 16 ≤ acceptingSocket := of_decide_eq_true h
  simp only [acceptingSocketProtocol, acceptingSocketIsHttp, acceptingSocketIsHttps,
    acceptingSocketIsGopher, acceptingSocketIsFinger, acceptingSocketIsGemini,
    acceptingSocketIsSpartan, acceptingSocketIsNex, acceptingSocketIsText, Bool.and_eq_true,
    decide_eq_true_eq]
  repeat rw [if_neg (by omega)]

theorem ErrorPackage.unchunked (h : ErrorPackage acceptingSocket response package)
    (hguppy : acceptingSocketIsGuppy acceptingSocket = true) : response.Unchunked := by
  have hle : 16 ≤ acceptingSocket := of_decide_eq_true hguppy
  have hhttp : acceptingSocketIsHttp acceptingSocket = false := decide_eq_false (by omega)
  have hhttps : acceptingSocketIsHttps acceptingSocket = false := by
    simp [acceptingSocketIsHttps]
    omega
  rcases h with @⟨request, lookup, env, s, t, _, stream, hpage, h⟩ | @⟨fixed, realloc, queue, r, _, stream, h⟩
  · simp only [processorProcess, hhttp, hhttps, Bool.or_false, Bool.not_false, Bool.true_or, if_true,
      hpage, processorSpecific, acceptingSocketProtocol_guppy hguppy] at h
    rcases hmethod : lookup request.method with e | method
    · rw [hmethod] at h
      cases h
    rcases hresource : lookup request.resource with e | resource
    · rw [hmethod, hresource] at h
      cases h
    rcases hprotocol : lookup request.protocol with e | protocol
    · rw [hmethod, hresource, hprotocol] at h
      cases h
    rw [hmethod, hresource, hprotocol] at h
    exact processorProcessStatic_unchunked h
  · obtain ⟨enqueued, queue, hconstruct, hreturn⟩ := Outcome.andThen_eq_ok.mp h
    injection hreturn with hpair
    obtain rfl : enqueued = response := congrArg Prod.fst hpair
    rw [processorConstructResponse_value hconstruct]
    exact ⟨rfl, rfl⟩

/-! ## Sending them -/

/-- The length of the number before zero is never found. -/
theorem intLength_hangs : intLength (sizeSub (sizeAdd 0 0) 1) = none := by decide +kernel

theorem sendMessage_hangs (h : (v.server.client i).response.Unchunked)
    (advance : ℕ → Server → Server) (stream : ConstantValue) :
    sendMessage i now advance stream v = .hang := by
  obtain ⟨hfirst, hsize⟩ := h
  rw [sendMessage]
  dsimp only
  rw [hfirst, hsize, intLength_hangs]
  rfl

/-- The send step terminates, and the package was handed to `sendto()` when its response is popped. -/
def PackageDelivered (i : ℕ) (now : ℤ) (answers : SendAnswers) (package : List UInt8) (v : Visit) :
    Prop :=
  let handed (w : Visit) : Prop :=
    (w.server.client i).responseCount < (v.server.client i).responseCount →
      .sentTo (v.server.client i).birth package ∈ w.server.effects
  (serverSendTraffic i now answers v).Ensures (fun _ w => handed w) fun _ w => handed w

/-- Whatever is pending of a response without chunks, its send step never ends. -/
theorem serverSendTraffic_hangs (answers : SendAnswers)
    (hguppy : acceptingSocketIsGuppy (v.server.client i).acceptingSocket = true)
    (h : (v.server.client i).response.Unchunked) (hsaturated : v.flags.saturated = false)
    (hsend : getMakesSenseToSend v.server i = true) : serverSendTraffic i now answers v = .hang := by
  have hle : 16 ≤ (v.server.client i).acceptingSocket := of_decide_eq_true hguppy
  have hmessage : ¬ acceptingSocketIsConnection (v.server.client i).acceptingSocket = true := by
    rw [acceptingSocketIsConnection, decide_eq_true_eq]
    omega
  have hvalue : ∀ answers advance stream, sendValue i now answers advance stream v = .hang := by
    intro answers advance stream
    rw [sendValue, if_neg hmessage]
    exact sendMessage_hangs h advance stream
  rw [serverSendTraffic]
  by_cases howner : v.server.owns i
  · rw [if_pos howner, serverSendShortResponseStream, hvalue]
    rfl
  · have hpending : (v.server.client i).responseStream.size > 0 := by
      have hsize : clientResponseStreamSize v.server i > 0 := of_decide_eq_true hsend
      rwa [clientResponseStreamSize, if_neg howner, Nat.add_zero] at hsize
    rw [if_neg howner, Outcome.andThen_ok, if_pos ⟨hsaturated, hpending⟩, serverSendLongOutputBuffer,
      hvalue]
    rfl

/-- No error package of Guppy is ever delivered: where it is the current response and its send step is
due, the server is lost. -/
theorem serverSendTraffic_undelivered (answers : SendAnswers)
    (hguppy : acceptingSocketIsGuppy (v.server.client i).acceptingSocket = true)
    (h : ErrorPackage (v.server.client i).acceptingSocket (v.server.client i).response package)
    (hsaturated : v.flags.saturated = false) (hsend : getMakesSenseToSend v.server i = true) :
    ¬ PackageDelivered i now answers package v := by
  intro hdelivered
  rw [PackageDelivered, serverSendTraffic_hangs answers hguppy (h.unchunked hguppy) hsaturated hsend]
    at hdelivered
  exact hdelivered

/-- The blocks of a round before the one that sends. -/
def roundUntilSend (i : ℕ) (now : ℤ) (answers : RoundAnswers) (v : Visit) :
    Outcome ExError Visit Unit :=
  (roundFirst i now v).andThen fun _ v =>
  (roundReceive i now answers.receive v).andThen fun _ v =>
  roundParse i now answers.process answers.shutdown v

/-! ## A request for something that is no page -/

/-- `guppy://h/none`, as the parser read it. -/
def unknownRequest : Request :=
  { Request.zero with streamSize := 16, method := ⟨8, 1⟩, resource := ⟨9, 5⟩, protocol := ⟨0, 8⟩ }

/-- The response it is answered with. -/
def unknownResponse : Response := ⟨20, 14, ⟨0, 1⟩, ⟨1, 5⟩, ⟨6, 8⟩, ⟨14, 0⟩, false, false, 0⟩

theorem unknownResponse_package :
    ErrorPackage 16 unknownResponse (ascii "4 Invalid resource\r\n") := by
  have hprocess : ((processorProcess 16 unknownRequest
      (ringLookup (.holding (ascii "guppy://h/none\r\n") 16))
      (processAnswersFor .invalidResource).processor ⟨⟨[], []⟩, .zero⟩).handle
        (fun _ _ => (.hang : Outcome Unit (Response × List UInt8) Unit))
        fun value t => .ok () (value.1, (value.2.read t.buffers).bytes)).returnsIn
          (fun answer => answer = (unknownResponse, ascii "4 Invalid resource\r\n")) = true := by
    decide +kernel
  obtain ⟨_, answer, hanswer, hcheck⟩ := Outcome.exists_of_returnsIn hprocess
  obtain ⟨⟨response, stream⟩, t, hr, hanswer⟩ : ∃ value t, processorProcess 16 unknownRequest
      (ringLookup (.holding (ascii "guppy://h/none\r\n") 16))
      (processAnswersFor .invalidResource).processor ⟨⟨[], []⟩, .zero⟩ = .ok value t ∧
        (value.1, (value.2.read t.buffers).bytes) = answer := by
    revert hanswer
    cases processorProcess 16 unknownRequest (ringLookup (.holding (ascii "guppy://h/none\r\n") 16))
        (processAnswersFor .invalidResource).processor ⟨⟨[], []⟩, .zero⟩ with
    | ok value t =>
      intro hanswer
      injection hanswer with _ heq
      exact ⟨value, t, rfl, heq⟩
    | error e t =>
      intro hanswer
      cases hanswer
    | hang =>
      intro hanswer
      cases hanswer
  obtain ⟨hresponse, hbytes⟩ := Prod.mk.inj (hanswer.trans (of_decide_eq_true hcheck))
  rw [← hresponse, ← hbytes]
  exact .invalidResource rfl hr

/-- The client that asked for it, when the answer is to be sent. -/
def packageVisit : Outcome ExError Visit Unit :=
  (acceptSockets ⟨false, false, false⟩ 0 (datagramPass 2 (ascii "guppy://h/none\r\n")).sockets
    (List.range acceptingSockets) (pollAll datagramReady (.initial listening))).handle
      (fun _ _ => .hang) fun _ s => roundUntilSend 0 0 quietRound (startVisit 0 (clientsShuffle id s))

/-- How the kernel answers to a client that nothing can be sent to. -/
def nothingSent : SendAnswers := ⟨⟨.wouldBlock, .wouldBlock⟩, ⟨.wouldBlock, .wouldBlock⟩⟩

/-- One datagram is enough. -/
theorem serverSendTraffic_undelivered_unknown : ∃ v, packageVisit = .ok () v ∧
    ¬ PackageDelivered 0 0 nothingSent (ascii "4 Invalid resource\r\n") v := by
  have hvisit : packageVisit.returnsIn (fun v => (v.server.client 0).acceptingSocket = 16 ∧
      (v.server.client 0).response = unknownResponse ∧ v.flags.saturated = false ∧
      getMakesSenseToSend v.server 0 = true) = true := by decide +kernel
  obtain ⟨_, v, hreturns, hcheck⟩ := Outcome.exists_of_returnsIn hvisit
  obtain ⟨hsocket, hresponse, hsaturated, hsend⟩ := of_decide_eq_true hcheck
  refine ⟨v, hreturns, serverSendTraffic_undelivered nothingSent ?_ ?_ hsaturated hsend⟩
  · rw [hsocket]
    rfl
  · rw [hsocket, hresponse]
    exact unknownResponse_package

/-- The answer to a resource that is no page is not delivered. -/
theorem serverSendTraffic_package_lost : ¬ ∀ (answers : SendAnswers) (v : Visit) (response : Response)
    (package : List UInt8), packageVisit = .ok () v → (v.server.client 0).response = response →
      ErrorPackage (v.server.client 0).acceptingSocket response package →
        PackageDelivered 0 0 answers package v := by
  intro hclaim
  have hvisit : packageVisit.returnsIn (fun v => (v.server.client 0).acceptingSocket = 16 ∧
      (v.server.client 0).response = unknownResponse ∧
      (serverSendTraffic 0 0 nothingSent v).returnsIn (fun _ => true) = false ∧
      (serverSendTraffic 0 0 nothingSent v).failsIn (fun _ _ => true) = false) = true := by
    decide +kernel
  obtain ⟨_, v, hreturns, hcheck⟩ := Outcome.exists_of_returnsIn hvisit
  obtain ⟨hsocket, hresponse, hnever, hnor⟩ := of_decide_eq_true hcheck
  have hdelivered := hclaim nothingSent v unknownResponse _ hreturns hresponse
    (by rw [hsocket]; exact unknownResponse_package)
  rw [PackageDelivered] at hdelivered
  rcases hsent : serverSendTraffic 0 0 nothingSent v with ⟨⟩ | ⟨⟩
  · rw [hsent] at hnever
    cases hnever
  · rw [hsent] at hnor
    cases hnor
  · rw [hsent] at hdelivered
    exact hdelivered

end Twinkleshine
