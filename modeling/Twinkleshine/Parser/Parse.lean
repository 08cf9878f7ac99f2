import Twinkleshine.Parser.Simple
import Twinkleshine.Parser.Spartan

/-!
# Parsing what a ring holds

Reference: `source/parser/parser.c`.
-/

namespace Twinkleshine

open Library

/-- The parser function of an accepting socket. -/
def parserFunction (acceptingSocket : ℕ) (lookup : Lookup) :
    List UInt8 → Progress → Outcome ExError Progress Unit :=
  match acceptingSocketProtocol acceptingSocket with
  | .http | .https => parserParseHttp lookup
  | .gopher => parserParseGopher
  | .finger => parserParseFinger
  | .gemini => parserParseGemini
  | .spartan => parserParseSpartan lookup
  | .nex => parserParseNex
  | .text => parserParseText
  | .guppy => parserParseGuppy

/-- The part of the request stream that is handed to the parser function. -/
def notParsedLocation (s : Progress) (size : ℕ) : ValueLocation where
  offset := s.request.streamSize
  size :=
    if size ≥ maxRequestSize then sizeSub maxRequestSize s.request.streamSize
    else sizeSub size s.request.streamSize

/-- `parser_parse` on a request stream of `size` bytes on which `ring_get` answers with `lookup`. -/
def parserParseWith (acceptingSocket : ℕ) (lookup : Lookup) (size : ℕ) (s : Progress) :
    Outcome ExError Progress Unit :=
  match lookup (notParsedLocation s size) with
  | .error e => .error (extend .closeLogDie e) s
  | .ok notParsed =>
    (parserFunction acceptingSocket lookup notParsed.part0 s).andThen fun _ s =>
      (parserFunction acceptingSocket lookup notParsed.part1 s).andThen fun _ s =>
        if size ≥ maxRequestSize then
          if s.parser.state = .end then .ok () s
          else .error ⟨"Actual request size exceeded", .sendShutdownLog .maxRequestHeaderSize⟩ s
        else .ok () s

/-- `parser_parse` -/
def parserParse (acceptingSocket : ℕ) (requestStream : Ring) (s : Progress) :
    Outcome ExError Progress Unit :=
  parserParseWith acceptingSocket (ringLookup requestStream) requestStream.size s

end Twinkleshine
