import Twinkleshine.Parser.Defs

/-!
# The parsers that never look back

Reference: `source/parser/gopher_parser.c`, `source/parser/finger_parser.c`,
`source/parser/gemini_parser.c`.
-/

namespace Twinkleshine

open Library

/-! ## Gopher and Nex -/

/-- The `switch` of `parser_parse_gopher` on one character. -/
def parserParseGopherStep : ParserStep := fun _ c s =>
  match s.parser.state with
  | .waitResourceEnd =>
    if c = 13 then .ok .next { s with parser.state := .waitFinalLineLf }
    else if c = 10 then .ok .next { s with parser.toleratedLf := true, parser.state := .end }
    else if c ≠ 9 then .ok .next { s with request.resource.size := s.request.resource.size + 1 }
    else .error (invalidSymbol c) s
  | .waitFinalLineLf =>
    if c = 10 then .ok .next { s with parser.state := .end } else .error (invalidSymbol c) s
  | _ => .error afterRequestEnd s

/-- `parser_parse_gopher` -/
def parserParseGopher : List UInt8 → Progress → Outcome ExError Progress Unit :=
  parsePart .waitResourceEnd parserParseGopherStep

/-- `parser_parse_nex` -/
def parserParseNex : List UInt8 → Progress → Outcome ExError Progress Unit := parserParseGopher

/-! ## Finger -/

/-- The `switch` of `parser_parse_finger` on one character. -/
def parserParseFingerStep : ParserStep := fun _ c s =>
  match s.parser.state with
  | .waitMethodBegin =>
    if c = 13 then .ok .next { s with parser.state := .waitFinalLineLf }
    else if c = 10 then .ok .next { s with parser.toleratedLf := true, parser.state := .end }
    else if c = 47 then .ok .next { s with request.method.size := 1, parser.state := .waitMethodEnd }
    else .ok .next { s with request.resource.size := 1, parser.state := .waitResourceEnd }
  | .waitMethodEnd =>
    if c = 87 then
      .ok .next { s with request.method.size := 2, parser.state := .waitResourceBegin }
    else .error (invalidSymbol c) s
  | .waitResourceBegin =>
    if c = 13 then .ok .next { s with parser.state := .waitFinalLineLf }
    else if c = 10 then .ok .next { s with parser.toleratedLf := true, parser.state := .end }
    else if c = 32 then .ok .next s
    else -- the source sets the offset of the method here
      .ok .next { s with
        request.method.offset := s.request.streamSize, request.resource.size := 1
        parser.state := .waitResourceEnd }
  | .waitResourceEnd =>
    if c = 13 then .ok .next { s with parser.state := .waitFinalLineLf }
    else if c = 10 then .ok .next { s with parser.toleratedLf := true, parser.state := .end }
    else .ok .next { s with request.resource.size := s.request.resource.size + 1 }
  | .waitFinalLineLf =>
    if c = 10 then .ok .next { s with parser.state := .end } else .error (invalidSymbol c) s
  | _ => .error afterRequestEnd s

/-- `parser_parse_finger` -/
def parserParseFinger : List UInt8 → Progress → Outcome ExError Progress Unit :=
  parsePart .waitMethodBegin parserParseFingerStep

/-! ## Gemini, Guppy and Text -/

/-- The `switch` of `parser_parse_gemini_like` on one character. -/
def parserParseGeminiLikeStep (protocol : List UInt8) : ParserStep := fun _ c s =>
  match s.parser.state with
  | .waitProtocolEnd =>
    if protocol[s.request.protocol.size]? = some c then
      let s := { s with request.protocol.size := s.request.protocol.size + 1 }
      if s.request.protocol.size = protocol.length then
        .ok .next { s with
          request.method.offset := protocol.length, parser.state := .waitMethodEnd }
      else .ok .next s
    else .error (invalidSymbol c) s
  | .waitMethodEnd =>
    if isClass cmDomain c || c == 58 then
      .ok .next { s with request.method.size := s.request.method.size + 1 }
    else if c = 47 then
      .ok .next { s with
        request.resource := ⟨s.request.streamSize, 1⟩, parser.state := .waitResourceEnd }
    else if c = 13 then .ok .next { s with parser.state := .waitFinalLineLf }
    else if c = 10 then .ok .next { s with parser.toleratedLf := true, parser.state := .end }
    else .error (invalidSymbol c) s
  | .waitResourceEnd =>
    if isClass cmResource c then
      .ok .next { s with request.resource.size := s.request.resource.size + 1 }
    else if c = 13 then .ok .next { s with parser.state := .waitFinalLineLf }
    else if c = 10 then .ok .next { s with parser.toleratedLf := true, parser.state := .end }
    else .error (invalidSymbol c) s
  | .waitFinalLineLf =>
    if c = 10 then .ok .next { s with parser.state := .end } else .error (invalidSymbol c) s
  | _ => .error afterRequestEnd s

/-- `parser_parse_gemini_like` -/
def parserParseGeminiLike (protocol : List UInt8) :
    List UInt8 → Progress → Outcome ExError Progress Unit :=
  parsePart .waitProtocolEnd (parserParseGeminiLikeStep protocol)

/-- `parser_parse_gemini` -/
def parserParseGemini : List UInt8 → Progress → Outcome ExError Progress Unit :=
  parserParseGeminiLike (ascii "gemini://")

/-- `parser_parse_guppy` -/
def parserParseGuppy : List UInt8 → Progress → Outcome ExError Progress Unit :=
  parserParseGeminiLike (ascii "guppy://")

/-- `parser_parse_text` -/
def parserParseText : List UInt8 → Progress → Outcome ExError Progress Unit :=
  parserParseGeminiLike (ascii "text://")

end Twinkleshine
