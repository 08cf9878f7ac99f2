import Twinkleshine.Processor.ProcessTheorems
import Twinkleshine.Server.Process

/-!
# Which response decides about the connection

Reference: the end of `server_process_traffic` in `source/server/process.c`.

When a request is answered, request and parser are zeroed for a further one if the response keeps the
connection alive. The code looks at the response at the head of the queue, which is the one just
produced only when nothing else is pending. `processRequest_reset` says what it does, and
`serverProcessTraffic_resets_iff` when that is right.
-/

namespace Twinkleshine

open Library

/-! ## The response that is produced -/

section

variable {lookup : Lookup} {request : Request} {env : ProcessorEnvironment} {s t : ProcessorState}
  {response : Response} {stream : TextValue}

/-- The end of every branch of the processors. -/
theorem respond_keepAlive {buffers : InternalBuffers} {result : TextValue} {realloc : Realloc}
    {streamSize : ℕ} {keepAlive : Bool} {firstChunk chunkNumber : ℕ}
    {method resource protocol : ConstantValue}
    (h : ((processorConstructResponse s.responseQueue realloc streamSize keepAlive firstChunk
      chunkNumber method resource protocol).mapState fun queue =>
        (⟨buffers, queue⟩ : ProcessorState)).andThen
          (fun response t => .ok (response, result) t) = .ok (response, stream) t) :
    response.keepAlive = keepAlive := by
  rw [Outcome.andThen_eq_ok] at h
  obtain ⟨value, u, hconstruct, hvalue⟩ := h
  rw [Outcome.mapState_eq_ok] at hconstruct
  obtain ⟨queue, hqueue, -⟩ := hconstruct
  injection hvalue with hpair
  rw [← (Prod.mk.inj hpair).1]
  rw [processorConstructResponse_value hqueue]
  rfl

/-- Processing looked up the words of the request. -/
theorem requestWords_eq_ok {method resource protocol : ConstantValue}
    (h : requestWords lookup request = .ok (method, resource, protocol)) :
    lookup request.method = .ok method ∧ lookup request.resource = .ok resource := by
  simp only [requestWords] at h
  cases hmethod : lookup request.method <;> rw [hmethod] at h <;> simp only [Except.bind] at h
  · cases h
  cases hresource : lookup request.resource <;> rw [hresource] at h <;> simp only at h
  · cases h
  cases hprotocol : lookup request.protocol <;> rw [hprotocol] at h <;> simp only at h
  · cases h
  injection h with h
  injection h with h₁ h₂
  injection h₂ with h₂ h₃
  exact ⟨congrArg _ h₁, congrArg _ h₂⟩

/-- The words of a request that was answered. -/
def WordsFound (lookup : Lookup) (request : Request) (method resource : ConstantValue) : Prop :=
  lookup request.method = .ok method ∧ lookup request.resource = .ok resource

theorem processorProcessStatic_keepAlive {text : List UInt8}
    (h : processorProcessStatic text request lookup env s = .ok (response, stream) t) :
    ∃ method resource, WordsFound lookup request method resource ∧ response.keepAlive = false := by
  unfold processorProcessStatic at h
  rcases hwords : requestWords lookup request with e | ⟨method, resource, protocol⟩
  · rw [hwords] at h
    cases h
  · rw [hwords] at h
    exact ⟨method, resource, requestWords_eq_ok hwords, respond_keepAlive h⟩

theorem processorProcessHttp_keepAlive
    (h : processorProcessHttp request lookup env s = .ok (response, stream) t) :
    ∃ method resource, WordsFound lookup request method resource ∧
      response.keepAlive = (httpSpecific request method resource []).1 := by
  unfold processorProcessHttp at h
  rcases hwords : requestWords lookup request with e | ⟨method, resource, protocol⟩
  · rw [hwords] at h
    cases h
  · rw [hwords] at h
    rcases hrefused : env.refusedString with _ | refused
    · rw [hrefused] at h
      refine ⟨method, resource, requestWords_eq_ok hwords, ?_⟩
      rw [httpSpecific_keepAlive request method resource [] env.date]
      exact respond_keepAlive h
    · rw [hrefused] at h
      cases h

theorem processorSpecific_keepAlive {acceptingSocket : ℕ}
    (h : processorSpecific acceptingSocket request lookup env s = .ok (response, stream) t) :
    ∃ method resource, WordsFound lookup request method resource ∧
      response.keepAlive = specificKeepsAlive acceptingSocket request method resource := by
  rw [processorSpecific] at h
  unfold specificKeepsAlive
  by_cases hhttp : acceptingSocketIsHttp acceptingSocket = true
  · simp only [acceptingSocketProtocol, hhttp, if_true, Bool.true_or] at h ⊢
    exact processorProcessHttp_keepAlive h
  by_cases hhttps : acceptingSocketIsHttps acceptingSocket = true
  · simp only [acceptingSocketProtocol, hhttp, hhttps, if_true, Bool.or_true] at h ⊢
    exact processorProcessHttp_keepAlive h
  simp only [acceptingSocketProtocol, hhttp, hhttps, Bool.or_self, Bool.false_eq_true, if_false]
    at h ⊢
  split_ifs at h <;> exact processorProcessStatic_keepAlive h

/-- The response that is produced keeps the connection as the request and its page say. -/
theorem processorProcess_keepAlive {acceptingSocket : ℕ}
    (h : processorProcess acceptingSocket request lookup env s = .ok (response, stream) t) :
    ∃ method resource, WordsFound lookup request method resource ∧
      response.keepAlive = answerKeepsAlive acceptingSocket request method resource env.page := by
  unfold processorProcess at h
  unfold answerKeepsAlive
  rcases hmethod : lookup request.method with e | method
  · rw [hmethod] at h
    cases h
  simp only [hmethod] at h
  by_cases hget : (!(acceptingSocketIsHttp acceptingSocket || acceptingSocketIsHttps acceptingSocket)
      || ((acceptingSocketIsHttp acceptingSocket || acceptingSocketIsHttps acceptingSocket) &&
        valueCompareCaseMem method (ascii "get"))) = true
  · rw [if_pos hget] at h
    rcases hresource : lookup request.resource with e | resource
    · rw [hresource] at h
      cases h
    rcases hprotocol : lookup request.protocol with e | protocol
    · rw [hresource, hprotocol] at h
      cases h
    simp only [hresource, hprotocol] at h
    rcases hpage : env.page with page | _ | ⟨e, leftover⟩ <;> simp only [hpage] at h
    · refine ⟨method, resource, ⟨hmethod, hresource⟩, ?_⟩
      rw [if_pos hget]
      exact respond_keepAlive h
    · obtain ⟨method', resource', hfound, hkeep⟩ := processorSpecific_keepAlive h
      obtain rfl : method' = method := by
        injection hfound.1.symm.trans hmethod
      refine ⟨method', resource', hfound, ?_⟩
      rw [if_pos hget]
      exact hkeep
    · cases h
  · rw [if_neg hget] at h
    obtain ⟨method', resource', hfound, hkeep⟩ := processorSpecific_keepAlive h
    obtain rfl : method' = method := by
      injection hfound.1.symm.trans hmethod
    refine ⟨method', resource', hfound, ?_⟩
    rw [if_neg hget]
    exact hkeep

end

/-! ## What the decision rests on -/

/-- Of a client: what the parser has read, and whether the response at the head keeps the connection. -/
structure SameDecision (c d : Client) : Prop where
  progress : d.progress = c.progress
  keepAlive : d.response.keepAlive = c.response.keepAlive

theorem SameDecision.rfl {c : Client} : SameDecision c c := ⟨Eq.refl _, Eq.refl _⟩

/-! ## The decision -/

/-- Flushing changes response streams of clients and nothing else of them. -/
theorem flushShortResponseStream_client {realloc : Realloc} {s t : Server}
    (h : flushShortResponseStream realloc s = .ok () t) (i : ℕ) :
    ∃ stream, t.client i = { s.client i with responseStream := stream } := by
  unfold flushShortResponseStream at h
  rcases howner : s.shortResponseStreamOwner with _ | owner <;> simp only [howner] at h
  · injection h with _ h
    exact ⟨(s.client i).responseStream, by rw [h]⟩
  · rw [Outcome.andThen_eq_ok] at h
    obtain ⟨_, u, hu, ht⟩ := h
    obtain ⟨client, hclient, rfl⟩ := Server.onClient_eq_ok hu
    injection ht with _ ht
    rw [Outcome.mapState_eq_ok] at hclient
    obtain ⟨stream, -, rfl⟩ := hclient
    subst ht
    by_cases hi : owner.index = i
    · subst hi
      by_cases hlt : owner.index < s.clients.elements.length
      · exact ⟨stream, Server.client_setClient hlt _⟩
      · refine ⟨(s.client owner.index).responseStream, ?_⟩
        simp [Server.client, Server.setClient, hlt]
    · exact ⟨(s.client i).responseStream, Server.client_setClient_of_ne s hi _⟩

/-- Flushing keeps the number of clients. -/
theorem flushShortResponseStream_length {realloc : Realloc} {s t : Server}
    (h : flushShortResponseStream realloc s = .ok () t) :
    t.clients.elements.length = s.clients.elements.length := by
  unfold flushShortResponseStream at h
  rcases howner : s.shortResponseStreamOwner with _ | owner <;> simp only [howner] at h
  · injection h with _ h
    rw [h]
  · rw [Outcome.andThen_eq_ok] at h
    obtain ⟨_, u, hu, ht⟩ := h
    obtain ⟨client, -, rfl⟩ := Server.onClient_eq_ok hu
    injection ht with _ ht
    rw [← ht]
    simp

/-- Taking the request makes the new response the current one if there is no other. -/
theorem takeRequest_same {response : Response} {c d : Client}
    (h : takeRequest response c = .ok () d) :
    d.progress = c.progress ∧ d.response.keepAlive
      = if c.responseCount = 0 then response.keepAlive else c.response.keepAlive := by
  simp only [takeRequest, Outcome.andThen_eq_ok, Outcome.mapState_eq_ok] at h
  obtain ⟨_, e, ⟨stream, -, rfl⟩, hd⟩ := h
  injection hd with _ hd
  subst hd
  constructor <;> split_ifs <;> rfl

/-- Storing the response leaves the decision as it is. -/
theorem storeResponse_same {i : ℕ} {answers : ProcessAnswers} {response : Response}
    {stream : TextValue} {s t : Server} (hi : i < s.clients.elements.length)
    (h : storeResponse i answers response stream s = .ok () t) :
    SameDecision (s.client i) (t.client i) ∧
      t.clients.elements.length = s.clients.elements.length := by
  unfold storeResponse at h
  by_cases hssl : (s.client i).ssl = true
  · rw [if_pos hssl] at h
    obtain ⟨hclient, hlength⟩ := Server.onClient_client hi h
    obtain ⟨hsame, hkeep⟩ := (cryptographyEncrypt_same _ response).of_eq_ok hclient
    exact ⟨⟨hsame.progress, hkeep⟩, hlength⟩
  · rw [if_neg hssl] at h
    by_cases hring : (s.client i).responseStream.size > 0
    · rw [if_pos hring] at h
      obtain ⟨hclient, hlength⟩ := Server.onClient_client hi h
      obtain ⟨ring, -, hring⟩ := Outcome.mapState_eq_ok.mp hclient
      rw [← hring]
      exact ⟨⟨rfl, rfl⟩, hlength⟩
    · rw [if_neg hring] at h
      injection h with _ h
      subst h
      exact ⟨.rfl, rfl⟩

/-- Generating the response changes the queue of the client, and no other client. -/
theorem generateResponse_same {i : ℕ} {env : ProcessorEnvironment} {s t : Server}
    {response : Response} {stream : TextValue} (hi : i < s.clients.elements.length)
    (h : generateResponse i env s = .ok (response, stream) t) :
    (∃ u, processorProcess (s.client i).acceptingSocket (s.client i).progress.request
        (ringLookup (s.client i).requestStream) env ⟨s.buffers, (s.client i).responseQueue⟩
          = .ok (response, stream) u) ∧
      (∃ queue, t.client i = { s.client i with responseQueue := queue }) ∧
      t.clients.elements.length = s.clients.elements.length := by
  rw [generateResponse, Outcome.mapState_eq_ok] at h
  obtain ⟨u, hu, rfl⟩ := h
  exact ⟨⟨u, hu⟩, ⟨u.responseQueue, Server.client_setClient hi _⟩, List.length_set⟩

/-- When a request is answered, the last step is `resetParser`, on a client whose parser has ended and
whose current response is the new one only if no other was pending. -/
theorem processRequest_reset {i : ℕ} {answers : ProcessAnswers} {s t : Server}
    (hi : i < s.clients.elements.length) (h : processRequest i answers s = .ok () t) :
    ∃ s₁ s₂ response stream, flushShortResponseStream answers.flush s = .ok () s₁ ∧
      generateResponse i answers.processor s₁ = .ok (response, stream) s₂ ∧
      ∃ client, resetParser answers.finalize client = .ok () (t.client i) ∧
        client.progress = (s.client i).progress ∧
        client.response.keepAlive = if (s.client i).responseCount = 0 then response.keepAlive
          else (s.client i).response.keepAlive := by
  simp only [processRequest, Outcome.andThen_eq_ok] at h
  obtain ⟨_, s₁, hflush, ⟨response, stream⟩, s₂, hgenerate, _, s₃, htake, _, s₄, hstore, hreset⟩ := h
  obtain ⟨ring, hs₁⟩ := flushShortResponseStream_client hflush i
  have hlength₁ := flushShortResponseStream_length hflush
  obtain ⟨-, ⟨queue, hs₂⟩, hlength₂⟩ := generateResponse_same (by omega) hgenerate
  generalize hemitted : s₂.emit _ = emitted at htake
  have hs₂' : emitted.client i = s₂.client i := by rw [← hemitted]; rfl
  have hlength₂' : emitted.clients.elements.length = s₂.clients.elements.length := by
    rw [← hemitted]; rfl
  obtain ⟨htaken, hlength₃⟩ := Server.onClient_client (by omega) htake
  obtain ⟨hprogress, hkeep⟩ := takeRequest_same htaken
  obtain ⟨hsame, hlength₄⟩ := storeResponse_same (by omega) hstore
  rw [hs₂', hs₂, hs₁] at hprogress hkeep
  obtain ⟨hfinal, -⟩ := Server.onClient_client
    (by rw [Server.clients_setClient, List.length_set]; omega) hreset
  rw [Server.client_setClient (by omega)] at hfinal
  exact ⟨s₁, s₂, response, stream, hflush, hgenerate, _, hfinal, hsame.progress.trans hprogress,
    hsame.keepAlive.trans hkeep⟩

/-! ## When the decision is right -/

/-- A client that was reset starts a further request; one that was not stays at its end. -/
theorem resetParser_progress {answers : ShutdownAnswers} {c d : Client}
    (h : resetParser answers c = .ok () d) :
    d.progress = if c.response.keepAlive then .zero else c.progress := by
  unfold resetParser at h
  by_cases hkeep : c.response.keepAlive = true
  · rw [if_pos hkeep] at h ⊢
    injection h with _ h
    rw [← h]
  · rw [if_neg hkeep] at h ⊢
    by_cases hssl : c.ssl = true
    · rw [if_pos hssl] at h
      exact ((cryptographyFinalize_same answers).of_eq_ok h).progress
    · rw [if_neg hssl] at h
      injection h with _ h
      rw [h]

/-- A client is reset for a further request exactly when the response `keepAlive` is about says so; else
its parser stays at the end, and the connection is closed. -/
def ResetFollows (keepAlive : Bool) (client : Client) : Prop :=
  (client.progress = .zero ↔ keepAlive = true) ∧
    (keepAlive = false → client.progress.parser.state = .end)

theorem resetFollows_iff {progress : Progress} (hend : progress.parser.state = .end)
    {decided keepAlive : Bool} {client : Client}
    (h : client.progress = if decided then .zero else progress) :
    ResetFollows keepAlive client ↔ decided = keepAlive := by
  have hzero : progress ≠ .zero := by
    rintro rfl
    cases hend
  have hbegin : Progress.zero.parser.state ≠ .end := by decide
  rw [ResetFollows, h]
  cases decided <;> cases keepAlive <;> simp [hzero, hend, hbegin]

/-- The state in which the response is generated: the request is parsed, and the short response stream
flushed. -/
def GeneratedFrom (i : ℕ) (now : ℤ) (answers : ProcessAnswers) (progress : Progress)
    (response : Response) (s : Server) : Prop :=
  ∃ s₁ s₂ stream,
    flushShortResponseStream answers.flush (s.setClient i
      { s.client i with progress := progress, lastRequestComplete := now }) = .ok () s₁ ∧
    generateResponse i answers.processor s₁ = .ok (response, stream) s₂

/-- The reset follows the response that was just produced exactly when nothing else was pending, or
what was at the head of the queue makes the same decision. -/
theorem serverProcessTraffic_resets_iff {i : ℕ} {now : ℤ} {answers : ProcessAnswers} {s t : Server}
    (hi : i < s.clients.elements.length) {progress : Progress}
    (hparse : parserParse (s.client i).acceptingSocket (s.client i).requestStream
      (s.client i).progress = .ok () progress)
    (hend : progress.parser.state = .end)
    (hok : serverProcessTraffic i now answers s = .ok () t) :
    ∃ method resource response,
      WordsFound (ringLookup (s.client i).requestStream) progress.request method resource ∧
      GeneratedFrom i now answers progress response s ∧
      response.keepAlive = answerKeepsAlive (s.client i).acceptingSocket progress.request method
        resource answers.processor.page ∧
      (ResetFollows response.keepAlive (t.client i) ↔
        (s.client i).responseCount = 0 ∨ (s.client i).response.keepAlive
          = answerKeepsAlive (s.client i).acceptingSocket progress.request method resource
            answers.processor.page) := by
  simp only [serverProcessTraffic, Outcome.andThen_eq_ok] at hok
  obtain ⟨_, u, hu, hok⟩ := hok
  obtain ⟨client, hclient, rfl⟩ := Server.onClient_eq_ok hu
  obtain rfl : client = { s.client i with progress := progress } := by
    rw [parseRequest, hparse, Outcome.mapState_ok] at hclient
    injection hclient with _ hclient
    exact hclient.symm
  simp only [Server.client_setClient hi, Server.setClient_setClient] at hok
  rw [if_neg (not_not.mpr hend)] at hok
  -- the request is parsed, and its end is noted
  set parsed := s.setClient i
    { s.client i with progress := progress, lastRequestComplete := now } with hparsed
  have hlength : parsed.clients.elements.length = s.clients.elements.length := by simp [hparsed]
  have hclient' : parsed.client i
      = { s.client i with progress := progress, lastRequestComplete := now } :=
    Server.client_setClient hi _
  obtain ⟨s₁, s₂, response, stream, hflush, hgenerate, client, hreset, hprogress, hkeep⟩ :=
    processRequest_reset (by omega) hok
  -- neither the flush nor the generation is about the current response
  obtain ⟨ring, hs₁⟩ := flushShortResponseStream_client hflush i
  have hlength₁ := flushShortResponseStream_length hflush
  obtain ⟨⟨w, hw⟩, -⟩ := generateResponse_same (by omega) hgenerate
  obtain ⟨method, resource, hfound, hanswer⟩ := processorProcess_keepAlive hw
  rw [hs₁, hclient'] at hfound hanswer
  rw [hclient'] at hprogress hkeep
  refine ⟨method, resource, response, hfound, ⟨s₁, s₂, stream, hflush, hgenerate⟩, hanswer, ?_⟩
  have hfinal := resetParser_progress hreset
  rw [hprogress] at hfinal
  rw [resetFollows_iff hend hfinal, hkeep, ← hanswer]
  by_cases hcount : (s.client i).responseCount = 0
  · rw [if_pos hcount]
    simp only [hcount, true_or]
  · rw [if_neg hcount]
    simp only [hcount, false_or]

/-! ## Pipelined requests -/

/-- A ring of `capacity` bytes that holds `bytes` from its start on. -/
def Ring.holding (bytes : List UInt8) (capacity : ℕ) : Ring :=
  ⟨bytes ++ List.replicate (capacity - bytes.length) 0, bytes.length, capacity, 0⟩

/-- An HTTP client that sent two requests at once. Only the first one keeps the connection alive. -/
def pipelinedServer : Server :=
  let requests := ascii "GET / HTTP/1.1\r\nConnection: keep-alive\r\n\r\n" ++
    ascii "GET /robots.txt HTTP/1.1\r\n\r\n"
  let client : Client := { Client.zero with
    requestStream := .holding requests 128, cryptographyState := .operational }
  { Server.initial ⟨0, [], 0⟩ with clients := ⟨1, [client], 1⟩ }

/-- An allocator that grants every block, filled with zeros. -/
def grantAll : Realloc := some fun _ => 0

/-- What the outside decides when nothing is refused and OpenSSL is not asked. -/
def processAnswersFor (page : GenericPage) : ProcessAnswers where
  flush := grantAll
  processor := ⟨page, [], by decide, none, grantAll⟩
  store := grantAll
  encrypt := ⟨none, [], grantAll⟩
  finalize := ⟨.wants, ⟨[], grantAll⟩, grantAll⟩

/-- A page with one word. -/
def smallPage : GenericPage :=
  .page ⟨ascii "hello", [], 0, 0, by decide, by decide, by decide⟩

theorem serverProcessTraffic_resets_iff_first :
    ∃ t method resource response, ∃ progress : Progress,
      serverProcessTraffic 0 100 (processAnswersFor smallPage) pipelinedServer = .ok () t ∧
      WordsFound (ringLookup (pipelinedServer.client 0).requestStream) progress.request method
        resource ∧
      GeneratedFrom 0 100 (processAnswersFor smallPage) progress response pipelinedServer ∧
      response.keepAlive = answerKeepsAlive 0 progress.request method resource smallPage ∧
      (ResetFollows response.keepAlive (t.client 0) ↔
        (pipelinedServer.client 0).responseCount = 0 ∨ (pipelinedServer.client 0).response.keepAlive
          = answerKeepsAlive 0 progress.request method resource smallPage) := by
  have hrun : (serverProcessTraffic 0 100 (processAnswersFor smallPage) pipelinedServer).returnsIn
      (fun _ => true) = true := by decide +kernel
  have hparse : (parserParse 0 (pipelinedServer.client 0).requestStream .zero).returnsIn
      (fun progress => progress.parser.state = .end) = true := by decide +kernel
  obtain ⟨_, t, ht, -⟩ := Outcome.exists_of_returnsIn hrun
  obtain ⟨_, progress, hprogress, hend⟩ := Outcome.exists_of_returnsIn hparse
  obtain ⟨method, resource, response, h⟩ := serverProcessTraffic_resets_iff (s := pipelinedServer)
    (i := 0) (by decide) hprogress (of_decide_eq_true hend) ht
  exact ⟨t, method, resource, response, progress, ht, h⟩

/-- The second response of the pipelined requests does not keep the connection alive, but the first one
is still pending: the client is reset for a third request. -/
theorem serverProcessTraffic_resets_pipelined :
    ∃ s t, serverProcessTraffic 0 100 (processAnswersFor smallPage) pipelinedServer = .ok () s ∧
      serverProcessTraffic 0 101 (processAnswersFor .invalidResource) s = .ok () t ∧
      (t.client 0).responseCount = 2 ∧
      (Response.decode ((ringContent (t.client 0).responseQueue).drop
        (s.client 0).responseQueue.size)).keepAlive = false ∧
      (t.client 0).progress = .zero := by
  have hrun : ((serverProcessTraffic 0 100 (processAnswersFor smallPage) pipelinedServer).returnsIn
      fun s => (serverProcessTraffic 0 101 (processAnswersFor .invalidResource) s).returnsIn fun t =>
        (t.client 0).responseCount = 2 ∧
        (Response.decode ((ringContent (t.client 0).responseQueue).drop
          (s.client 0).responseQueue.size)).keepAlive = false ∧
        (t.client 0).progress = .zero) = true := by decide +kernel
  obtain ⟨_, s, hs, hrun⟩ := Outcome.exists_of_returnsIn hrun
  obtain ⟨_, t, ht, hcheck⟩ := Outcome.exists_of_returnsIn hrun
  exact ⟨s, t, hs, ht, of_decide_eq_true hcheck⟩

end Twinkleshine
