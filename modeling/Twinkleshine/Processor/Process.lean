import Twinkleshine.Parser.Lookup
import Twinkleshine.Processor.Fixed
import Twinkleshine.Processor.Response

/-!
# Generating responses

Reference: `source/processor/processor.c`, the `processor_process_*` of the protocols.

A response is generated into two internal buffers that all responses share, or is a static text. What
`processor_process` hands out are pointers: `TextValue` keeps them as pointers, so that what they
point to changes when the buffers are written again.
-/

namespace Twinkleshine

open Library

/-! ## Pointers to responses -/

/-- `g_internal_buffer_one` and `g_internal_buffer_two` -/
structure InternalBuffers where
  one : List UInt8
  two : List UInt8
deriving DecidableEq, Repr

/-- What a part of a response points into. -/
inductive TextSource where
  | one
  | two
  | static (text : List UInt8)
deriving DecidableEq, Repr

def TextSource.bytes (buffers : InternalBuffers) : TextSource → List UInt8
  | one => buffers.one
  | two => buffers.two
  | static text => text

/-- A pointer with a size. -/
structure TextPart where
  source : TextSource
  offset : ℕ
  size : ℕ
deriving DecidableEq, Repr

/-- The bytes a part points to while the buffers hold `buffers`. -/
def TextPart.read (buffers : InternalBuffers) (part : TextPart) : List UInt8 :=
  ((part.source.bytes buffers).drop part.offset).take part.size

/-- `struct ConstantValue` of a response. -/
structure TextValue where
  part0 : TextPart
  part1 : TextPart
deriving DecidableEq, Repr

def TextValue.read (buffers : InternalBuffers) (value : TextValue) : ConstantValue :=
  ⟨value.part0.read buffers, value.part1.read buffers⟩

/-- `value_size` -/
def TextValue.size (value : TextValue) : ℕ := value.part0.size + value.part1.size

/-- A null pointer. -/
def TextPart.zero : TextPart := ⟨.static [], 0, 0⟩

/-- `ZERO_INIT` -/
def TextValue.zero : TextValue := ⟨.zero, .zero⟩

/-- Both internal buffers, whole. -/
def TextValue.ofBuffers (buffers : InternalBuffers) : TextValue :=
  ⟨⟨.one, 0, buffers.one.length⟩, ⟨.two, 0, buffers.two.length⟩⟩

/-- A string literal. -/
def TextValue.ofText (text : List UInt8) : TextValue := ⟨⟨.static text, 0, text.length⟩, .zero⟩

/-! ## What the outside decides -/

/-- A page `processor_generic` printed into the internal buffers. -/
structure GeneratedPage where
  one : List UInt8
  two : List UInt8
  firstChunk : ℕ
  chunkNumber : ℕ
  /-- No page fills the address space. -/
  small : one.length + two.length < 2 ^ 60
  firstChunk_lt : firstChunk < 2 ^ 32
  chunkNumber_lt : chunkNumber < 2 ^ 32

/-- What `processor_generic` does with a resource. The texts of the pages are not modelled: any page
may be generated, the resource may be found invalid, and the allocator may refuse, which leaves
something behind. -/
inductive GenericPage where
  | page (page : GeneratedPage)
  | invalidResource
  | failed (e : Error) (leftover : InternalBuffers)

/-- What one call of `processor_process` meets: the page of the resource, the `Date` of the moment,
whether the allocator refuses a string, and how it answers for the response queue. -/
structure ProcessorEnvironment where
  page : GenericPage
  date : List UInt8
  date_small : date.length < 2 ^ 16
  refusedString : Option (Error × InternalBuffers)
  queueRealloc : Realloc

/-- What `processor_process` writes to. -/
structure ProcessorState where
  buffers : InternalBuffers
  responseQueue : Ring

/-! ## Specific responses -/

/-- The three words of the request the processors look up. -/
def requestWords (lookup : Lookup) (request : Request) :
    Except Error (ConstantValue × ConstantValue × ConstantValue) :=
  (lookup request.method).bind fun method =>
  (lookup request.resource).bind fun resource =>
  (lookup request.protocol).bind fun protocol =>
  .ok (method, resource, protocol)

/-- The answer of the protocols other than HTTP to a resource that is no page: a static text. -/
def processorProcessStatic (text : List UInt8) (request : Request) (lookup : Lookup)
    (env : ProcessorEnvironment) (s : ProcessorState) :
    Outcome ExError ProcessorState (Response × TextValue) :=
  match requestWords lookup request with
  | .error e => .error (extend .closeLogDie e) s
  | .ok (method, resource, protocol) =>
    ((processorConstructResponse s.responseQueue env.queueRealloc text.length false 0 0 method
      resource protocol).mapState fun queue => { s with responseQueue := queue }).andThen
      fun response s => .ok (response, .ofText text) s

/-- `processor_process_gopher` -/
def processorProcessGopher := processorProcessStatic (ascii "3Invalid resource" ++ fakeEndline)

/-- `processor_process_finger` -/
def processorProcessFinger := processorProcessStatic (ascii "Invalid resource\r\n")

/-- `processor_process_gemini` -/
def processorProcessGemini := processorProcessStatic (ascii "40 Invalid resource\r\n")

/-- `processor_process_spartan` -/
def processorProcessSpartan := processorProcessStatic (ascii "4 Invalid resource\r\n")

/-- `processor_process_nex` -/
def processorProcessNex := processorProcessFinger

/-- `processor_process_text` -/
def processorProcessText := processorProcessStatic (ascii "40 Invalid resource\r\n")

/-- `processor_process_guppy` -/
def processorProcessGuppy := processorProcessStatic (ascii "4 Invalid resource\r\n")

/-- `http_template_success` -/
def httpTemplateSuccess (contentLength : ℕ) (connection date : List UInt8) : List UInt8 :=
  ascii "HTTP/1.1 200 OK\r\n" ++
  ascii "Server: Twinkleshine\r\n" ++
  ascii "Cache-Control: no-cache, no-store, must-revalidate\r\n" ++
  ascii "Content-Type: text/html; charset=UTF-8\r\n" ++
  ascii "Content-Length: " ++ decimal contentLength ++ crlf ++
  ascii "Connection: " ++ connection ++ crlf ++
  ascii "Date: " ++ date ++ ascii " GMT\r\n" ++
  crlf

def txtRobots : List UInt8 := ascii "User-agent: *\n" ++ ascii "Disallow: /\n"

/-- `keep_alive ? "keep-alive" : "close"` -/
def connectionText (keepAlive : Bool) : List UInt8 :=
  if keepAlive then ascii "keep-alive" else ascii "close"

/-- An HTTP error page with its header. -/
def httpErrorBuffers (status explanation : List UInt8) (keepAlive : Bool) : InternalBuffers :=
  let two := htmlOpen ++ htmlTemplateErrorPage status explanation ++ htmlClose
  ⟨httpTemplateError status two.length (connectionText keepAlive), two⟩

/-- Whether a specific HTTP response keeps the connection, and its text: the three branches of
`processor_process_http`. -/
def httpSpecific (request : Request) (method resource : ConstantValue) (date : List UInt8) :
    Bool × InternalBuffers :=
  if !valueCompareCaseMem method (ascii "get") then
    (request.keepAlive,
      httpErrorBuffers (ascii "405 Method Not Allowed") (ascii "Invalid method") request.keepAlive)
  else if valueCompareCaseMem resource (ascii "/robots.txt") then
    (false, ⟨httpTemplateSuccess txtRobots.length (connectionText false) date, txtRobots⟩)
  else
    (request.keepAlive,
      httpErrorBuffers (ascii "404 Not Found") (ascii "Invalid resource") request.keepAlive)

/-- `processor_process_http` -/
def processorProcessHttp (request : Request) (lookup : Lookup) (env : ProcessorEnvironment)
    (s : ProcessorState) : Outcome ExError ProcessorState (Response × TextValue) :=
  match requestWords lookup request with
  | .error e => .error (extend .closeLogDie e) s
  | .ok (method, resource, protocol) =>
    match env.refusedString with
    | some (e, leftover) => .error (extend .closeLog e) { s with buffers := leftover }
    | none =>
      let (keepAlive, buffers) := httpSpecific request method resource env.date
      let s := { s with buffers := buffers }
      let responseStream := TextValue.ofBuffers buffers
      ((processorConstructResponse s.responseQueue env.queueRealloc responseStream.size keepAlive 0 0
        method resource protocol).mapState fun queue => { s with responseQueue := queue }).andThen
        fun response s => .ok (response, responseStream) s

/-- `processor_specific` -/
def processorSpecific (acceptingSocket : ℕ) (request : Request) (lookup : Lookup)
    (env : ProcessorEnvironment) (s : ProcessorState) :
    Outcome ExError ProcessorState (Response × TextValue) :=
  match acceptingSocketProtocol acceptingSocket with
  | .http | .https => processorProcessHttp request lookup env s
  | .gopher => processorProcessGopher request lookup env s
  | .finger => processorProcessFinger request lookup env s
  | .gemini => processorProcessGemini request lookup env s
  | .spartan => processorProcessSpartan request lookup env s
  | .nex => processorProcessNex request lookup env s
  | .text => processorProcessText request lookup env s
  | .guppy => processorProcessGuppy request lookup env s

/-! ## `processor_process` -/

/-- `processor_process` -/
def processorProcess (acceptingSocket : ℕ) (request : Request) (lookup : Lookup)
    (env : ProcessorEnvironment) (s : ProcessorState) :
    Outcome ExError ProcessorState (Response × TextValue) :=
  let http := acceptingSocketIsHttp acceptingSocket || acceptingSocketIsHttps acceptingSocket
  match lookup request.method with
  | .error e => .error (extend .closeLogDie e) s
  | .ok method =>
    if !http || (http && valueCompareCaseMem method (ascii "get")) then
      match lookup request.resource with
      | .error e => .error (extend .closeLogDie e) s
      | .ok resource =>
        match lookup request.protocol with
        | .error e => .error (extend .closeLogDie e) s
        | .ok protocol =>
          match env.page with
          | .failed e leftover =>
            .error (extend (.sendCloseLog .unknown) e) { s with buffers := leftover }
          | .page page =>
            let s := { s with buffers := ⟨page.one, page.two⟩ }
            let responseStream := TextValue.ofBuffers s.buffers
            ((processorConstructResponse s.responseQueue env.queueRealloc responseStream.size
              request.keepAlive page.firstChunk page.chunkNumber method resource protocol).mapState
              fun queue => { s with responseQueue := queue }).andThen
              fun response s => .ok (response, responseStream) s
          | .invalidResource => processorSpecific acceptingSocket request lookup env s
    else processorSpecific acceptingSocket request lookup env s

end Twinkleshine
