import Twinkleshine.Processor.Process

/-!
# What `processor_process` ensures

A response is one entry of the response queue and a text of the size the entry tells. Whatever the
client asked, generating it fails only when the allocator refuses, and never with an error that ends
the server.
-/

namespace Twinkleshine

open Library

/-! ## Sizes of the texts -/

theorem length_decimal_le (n : ℕ) : (decimal n).length ≤ 10 := by
  have hlt : n % uintModulus < 10 ^ 10 := (Nat.mod_lt _ (by decide)).trans (by decide)
  rw [decimal, List.length_map]
  exact (Nat.length_toDigits_le_iff (by decide) (by decide)).mpr hlt

theorem length_httpTemplateSuccess_le (contentLength : ℕ) (connection date : List UInt8) :
    (httpTemplateSuccess contentLength connection date).length
      ≤ 1000 + connection.length + date.length := by
  have hfixed : (httpTemplateSuccess 0 [] []).length ≤ 900 := by decide +kernel
  have hdecimal := length_decimal_le contentLength
  simp only [httpTemplateSuccess, List.length_append, List.length_nil] at hfixed ⊢
  omega

theorem length_httpTemplateError_le (status : List UInt8) (contentLength : ℕ)
    (connection : List UInt8) :
    (httpTemplateError status contentLength connection).length
      ≤ 1000 + status.length + connection.length := by
  have hfixed : (httpTemplateError [] 0 []).length ≤ 900 := by decide +kernel
  have hdecimal := length_decimal_le contentLength
  simp only [httpTemplateError, List.length_append, List.length_nil] at hfixed ⊢
  omega

theorem length_connectionText_le (keepAlive : Bool) : (connectionText keepAlive).length ≤ 10 := by
  cases keepAlive <;> decide

/-- An error page is small when its words are. -/
theorem httpErrorBuffers_small {status explanation : List UInt8} (keepAlive : Bool)
    (hstatus : status.length ≤ 100) (hexplanation : explanation.length ≤ 100) :
    (TextValue.ofBuffers (httpErrorBuffers status explanation keepAlive)).size < 2 ^ 20 := by
  have hfixed : (htmlOpen ++ htmlTemplateErrorPage [] [] ++ htmlClose).length ≤ 900 := by
    decide +kernel
  have hone := length_httpTemplateError_le status
    (htmlOpen ++ htmlTemplateErrorPage status explanation ++ htmlClose).length
    (connectionText keepAlive)
  have hconnection := length_connectionText_le keepAlive
  simp only [TextValue.size, TextValue.ofBuffers, httpErrorBuffers]
  simp only [htmlTemplateErrorPage, List.length_append, List.length_nil] at hfixed hone ⊢
  omega

/-- A specific HTTP response is small. -/
theorem httpSpecific_small (request : Request) (method resource : ConstantValue) {date : List UInt8}
    (hdate : date.length < 2 ^ 16) :
    (TextValue.ofBuffers (httpSpecific request method resource date).2).size < 2 ^ 20 := by
  simp only [httpSpecific]
  split_ifs
  · exact httpErrorBuffers_small _ (by decide) (by decide)
  · have hone := length_httpTemplateSuccess_le txtRobots.length (connectionText false) date
    have hconnection := length_connectionText_le false
    have htwo : txtRobots.length ≤ 100 := by decide
    simp only [TextValue.size, TextValue.ofBuffers]
    omega
  · exact httpErrorBuffers_small _ (by decide) (by decide)

/-! ## Generated responses -/

/-- The whole buffers are read. -/
@[simp] theorem TextValue.read_ofBuffers (buffers : InternalBuffers) :
    (TextValue.ofBuffers buffers).read buffers = ⟨buffers.one, buffers.two⟩ := by
  simp [ofBuffers, read, TextPart.read, TextSource.bytes]

theorem TextValue.valueSize_ofBuffers (buffers : InternalBuffers) :
    valueSize ((TextValue.ofBuffers buffers).read buffers) = (TextValue.ofBuffers buffers).size := by
  rw [read_ofBuffers]
  rfl

/-- A text is read whatever the buffers hold. -/
@[simp] theorem TextValue.read_ofText (text : List UInt8) (buffers : InternalBuffers) :
    (TextValue.ofText text).read buffers = ⟨text, []⟩ := by
  simp [ofText, read, TextPart.read, TextSource.bytes, TextPart.zero]

/-- A response that was generated for the words of a request: one entry is appended to the queue, and
the text has the size the entry tells. -/
structure Responded (s t : ProcessorState) (method resource protocol : List UInt8) (keepAlive : Bool)
    (response : Response) (stream : TextValue) : Prop where
  valid : t.responseQueue.Valid
  entry : ∃ entry : ResponseEntry, entry.WellFormed ∧ entry.response = response ∧
    entry.method = method ∧ entry.resource = resource ∧ entry.protocol = protocol ∧
    ringContent t.responseQueue = ringContent s.responseQueue ++ entry.bytes
  notSilent : response.silent = false
  keepAlive_eq : response.keepAlive = keepAlive
  streamSize : response.streamSize = stream.size
  readable : valueSize (stream.read t.buffers) = stream.size

/-- The errors of `processor_process`; none of them ends the server. -/
def IsProcessorError (e : ExError) : Prop :=
  e.eef = .sendShutdownLog .unknown ∨ e.eef = .closeLog ∨ e.eef = .sendCloseLog .unknown

/-- The queue a response is added to: valid, and far from the bounds of `size_t`. -/
structure ProcessorState.Ready (s : ProcessorState) : Prop where
  valid : s.responseQueue.Valid
  small : s.responseQueue.size < 2 ^ 61

/-- The end of every branch: the metadata is pushed and the text handed out. -/
theorem respond_meets {s : ProcessorState} (hs : s.responseQueue.Valid) (realloc : Realloc)
    (buffers : InternalBuffers) (stream : TextValue) (keepAlive : Bool) {firstChunk chunkNumber : ℕ}
    {method resource protocol : ConstantValue} (hstream : stream.size < 2 ^ 64)
    (hread : valueSize (stream.read buffers) = stream.size) (hfirst : firstChunk < 2 ^ 32)
    (hsize : method.bytes.length + resource.bytes.length + protocol.bytes.length + chunkNumber
      < 2 ^ 61) :
    (((processorConstructResponse s.responseQueue realloc stream.size keepAlive firstChunk chunkNumber
        method resource protocol).mapState fun queue => (⟨buffers, queue⟩ : ProcessorState)).andThen
          fun response t => .ok (response, stream) t).Meets (2 ^ 61 ≤ s.responseQueue.size)
      (fun result t =>
        Responded s t method.bytes resource.bytes protocol.bytes keepAlive result.1 result.2)
      (fun e t => IsProcessorError e ∧ t.responseQueue = s.responseQueue) := by
  refine ((processorConstructResponse_meets hs hsize).mapState _).andThen
    (fun response t ht => ?_) fun e t ht => ?_
  · obtain ⟨queue, rfl, hvalid, rfl, hcontent⟩ := ht
    exact ⟨hvalid, ⟨_, constructedEntry_wellFormed hstream hfirst (by omega), rfl, rfl, rfl, rfl, hcontent⟩,
      rfl, rfl, rfl, hread⟩
  · obtain ⟨queue, rfl, rfl, -, he⟩ := ht
    exact ⟨.inl he, rfl⟩

/-! ## The processors -/

/-- The words of a request: what the lookups of its locations find in the stream `w`. -/
structure RequestFound (lookup : Lookup) (request : Request) (method resource protocol : ConstantValue) :
    Prop where
  method_eq : lookup request.method = .ok method
  resource_eq : lookup request.resource = .ok resource
  protocol_eq : lookup request.protocol = .ok protocol
  small : method.bytes.length + resource.bytes.length + protocol.bytes.length < 2 ^ 60

/-- Whether a specific response keeps the connection: HTTP errors do what the request asks for,
`robots.txt` and the static answers of the other protocols close it. -/
def specificKeepsAlive (acceptingSocket : ℕ) (request : Request) (method resource : ConstantValue) :
    Bool :=
  if acceptingSocketIsHttp acceptingSocket || acceptingSocketIsHttps acceptingSocket then
    (httpSpecific request method resource []).1
  else false

/-- Whether the response to a request keeps the connection: pages do what the request asks for. -/
def answerKeepsAlive (acceptingSocket : ℕ) (request : Request) (method resource : ConstantValue)
    (page : GenericPage) : Bool :=
  let http := acceptingSocketIsHttp acceptingSocket || acceptingSocketIsHttps acceptingSocket
  if !http || (http && valueCompareCaseMem method (ascii "get")) then
    match page with
    | .page _ => request.keepAlive
    | .invalidResource | .failed _ _ => specificKeepsAlive acceptingSocket request method resource
  else specificKeepsAlive acceptingSocket request method resource

theorem httpSpecific_keepAlive (request : Request) (method resource : ConstantValue)
    (date date' : List UInt8) :
    (httpSpecific request method resource date).1 = (httpSpecific request method resource date').1 := by
  simp only [httpSpecific]
  split_ifs <;> rfl

section

variable {lookup : Lookup} {request : Request} {method resource protocol : ConstantValue}
  {s : ProcessorState} {env : ProcessorEnvironment}

theorem RequestFound.words (h : RequestFound lookup request method resource protocol) :
    requestWords lookup request = .ok (method, resource, protocol) := by
  simp only [requestWords, h.method_eq, h.resource_eq, h.protocol_eq, Except.bind]

theorem processorProcessStatic_meets {text : List UInt8} (htext : text.length < 2 ^ 20)
    (h : RequestFound lookup request method resource protocol) (hs : s.responseQueue.Valid) :
    (processorProcessStatic text request lookup env s).Meets (2 ^ 61 ≤ s.responseQueue.size)
      (fun result t =>
        Responded s t method.bytes resource.bytes protocol.bytes false result.1 result.2)
      (fun e t => IsProcessorError e ∧ t.responseQueue = s.responseQueue) := by
  have hsmall := h.small
  have hsize : (TextValue.ofText text).size = text.length := rfl
  rw [processorProcessStatic, h.words]
  exact respond_meets hs env.queueRealloc s.buffers (.ofText text) false
    (by omega) (by simp [valueSize, hsize]) (by omega) (by omega)

theorem processorProcessHttp_meets (h : RequestFound lookup request method resource protocol)
    (hs : s.responseQueue.Valid) :
    (processorProcessHttp request lookup env s).Meets (2 ^ 61 ≤ s.responseQueue.size)
      (fun result t => Responded s t method.bytes resource.bytes protocol.bytes
        (httpSpecific request method resource []).1 result.1 result.2)
      (fun e t => IsProcessorError e ∧ t.responseQueue = s.responseQueue) := by
  have hsmall := h.small
  have hsize := httpSpecific_small request method resource env.date_small
  rw [processorProcessHttp, h.words]
  cases env.refusedString with
  | some refused => exact ⟨.inr (.inl rfl), rfl⟩
  | none =>
    rw [httpSpecific_keepAlive request method resource [] env.date]
    dsimp only
    generalize httpSpecific request method resource env.date = specific at hsize ⊢
    exact respond_meets hs env.queueRealloc specific.2 _ specific.1 (hsize.trans (by decide))
      (TextValue.valueSize_ofBuffers _) (by decide) (by omega)

theorem processorSpecific_meets {acceptingSocket : ℕ}
    (h : RequestFound lookup request method resource protocol) (hs : s.responseQueue.Valid) :
    (processorSpecific acceptingSocket request lookup env s).Meets (2 ^ 61 ≤ s.responseQueue.size)
      (fun result t => Responded s t method.bytes resource.bytes protocol.bytes
        (specificKeepsAlive acceptingSocket request method resource) result.1 result.2)
      (fun e t => IsProcessorError e ∧ t.responseQueue = s.responseQueue) := by
  rw [processorSpecific, specificKeepsAlive]
  by_cases hhttp : acceptingSocketIsHttp acceptingSocket = true
  · simp only [acceptingSocketProtocol, hhttp, if_true, Bool.true_or]
    exact processorProcessHttp_meets h hs
  by_cases hhttps : acceptingSocketIsHttps acceptingSocket = true
  · simp only [acceptingSocketProtocol, hhttp, hhttps, if_true, Bool.or_true]
    exact processorProcessHttp_meets h hs
  simp only [acceptingSocketProtocol, hhttp, hhttps, Bool.or_self, Bool.false_eq_true, if_false]
  split_ifs <;> exact processorProcessStatic_meets (by decide) h hs

/-- Whatever was asked, `processor_process` appends one entry to the queue and hands out its text, or
fails with an error of the client alone and leaves the queue as it was. It hangs only when the queue
fills the address space. -/
theorem processorProcess_meets {acceptingSocket : ℕ}
    (h : RequestFound lookup request method resource protocol) (hs : s.responseQueue.Valid) :
    (processorProcess acceptingSocket request lookup env s).Meets (2 ^ 61 ≤ s.responseQueue.size)
      (fun result t => Responded s t method.bytes resource.bytes protocol.bytes
        (answerKeepsAlive acceptingSocket request method resource env.page) result.1 result.2)
      (fun e t => IsProcessorError e ∧ t.responseQueue = s.responseQueue) := by
  have hsmall := h.small
  simp only [processorProcess, answerKeepsAlive, h.method_eq, h.resource_eq, h.protocol_eq]
  split_ifs
  · cases hpage : env.page with
    | page page =>
      have hnumber := page.chunkNumber_lt
      have hpages : (TextValue.ofBuffers ⟨page.one, page.two⟩).size < 2 ^ 64 :=
        page.small.trans (by decide)
      exact respond_meets hs env.queueRealloc ⟨page.one, page.two⟩ _ request.keepAlive hpages
        (TextValue.valueSize_ofBuffers _) page.firstChunk_lt (by omega)
    | invalidResource => exact processorSpecific_meets h hs
    | failed e leftover => exact ⟨.inr (.inr rfl), rfl⟩
  · exact processorSpecific_meets h hs

/-- The same of a queue that is far from the bounds of `size_t`. -/
theorem processorProcess_ensures {acceptingSocket : ℕ}
    (h : RequestFound lookup request method resource protocol) (hs : s.Ready) :
    (processorProcess acceptingSocket request lookup env s).Ensures
      (fun result t => Responded s t method.bytes resource.bytes protocol.bytes
        (answerKeepsAlive acceptingSocket request method resource env.page) result.1 result.2)
      (fun e t => IsProcessorError e ∧ t.responseQueue = s.responseQueue) :=
  Outcome.meets_false.mp ((processorProcess_meets h hs.valid).of_imp (Nat.not_le.mpr hs.small))

/-- `processor_process` looks up the words of the request and nothing else. -/
theorem processorProcess_congr {lookup' : Lookup} {acceptingSocket : ℕ}
    (hmethod : lookup request.method = lookup' request.method)
    (hresource : lookup request.resource = lookup' request.resource)
    (hprotocol : lookup request.protocol = lookup' request.protocol) :
    processorProcess acceptingSocket request lookup env s
      = processorProcess acceptingSocket request lookup' env s := by
  have hwords : requestWords lookup request = requestWords lookup' request := by
    simp only [requestWords, hmethod, hresource, hprotocol]
  have hstatic : ∀ text, processorProcessStatic text request lookup env s
      = processorProcessStatic text request lookup' env s := fun text => by
    simp only [processorProcessStatic, hwords]
  have hspecific : processorSpecific acceptingSocket request lookup env s
      = processorSpecific acceptingSocket request lookup' env s := by
    simp only [processorSpecific, processorProcessHttp, hwords, processorProcessGopher,
      processorProcessFinger, processorProcessGemini, processorProcessSpartan, processorProcessNex,
      processorProcessText, processorProcessGuppy, hstatic]
  simp only [processorProcess, hmethod, hresource, hprotocol, hspecific]

end

end Twinkleshine
