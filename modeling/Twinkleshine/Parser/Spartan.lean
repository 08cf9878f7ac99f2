import Twinkleshine.Parser.Http

/-!
# The Spartan parser

Reference: `source/parser/spartan_parser.c`. The state `RPS_WAIT_NAME_*` is repurposed for the length
of the content.
-/

namespace Twinkleshine

open Library

/-- The length of the content, read when its line ends. -/
def parserParseSpartanLength (lookup : Lookup) (s : Progress) : Outcome ExError Progress Unit :=
  match lookup s.parser.currentValue with
  | .error e => .error (extend .closeLogDie e) s
  | .ok value =>
    match valueToUint value with
    | none => .error ⟨"Invalid integer", .sendShutdownLog .requestInvalid⟩ s
    | some remainingContent =>
      let s := { s with parser.remainingContent := remainingContent }
      if sizeAdd (sizeAdd s.parser.currentValue.offset s.parser.currentValue.size)
          remainingContent ≤ maxRequestSize then .ok () s
      else .error ⟨"Promised request size exceeded", .sendShutdownLog .maxRequestContentSize⟩ s

/-- The `switch` of `parser_parse_spartan` on one character. -/
def parserParseSpartanStep (lookup : Lookup) : ParserStep := fun available c s =>
  match s.parser.state with
  | .waitMethodEnd =>
    if c = 32 then .ok .next { s with parser.state := .waitResourceBegin }
    else if isClass cmDomain c then
      .ok .next { s with request.method.size := s.request.method.size + 1 }
    else .error (invalidSymbol c) s
  | .waitResourceBegin =>
    if c = 32 then .ok .next s
    else if isClass cmResource c then
      .ok .next { s with
        request.resource := ⟨s.request.streamSize, 1⟩, parser.state := .waitResourceEnd }
    else .error (invalidSymbol c) s
  | .waitResourceEnd =>
    if c = 32 then .ok .next { s with parser.state := .waitNameBegin }
    else if isClass cmResource c then
      .ok .next { s with request.resource.size := s.request.resource.size + 1 }
    else .error (invalidSymbol c) s
  | .waitNameBegin =>
    if c = 32 then .ok .next s
    else if isClass cmResource c then
      .ok .next { s with
        parser.currentValue := ⟨s.request.streamSize, 1⟩, parser.state := .waitNameEnd }
    else .error (invalidSymbol c) s
  | .waitNameEnd =>
    if isClass cmResource c then
      .ok .next { s with parser.currentValue.size := s.parser.currentValue.size + 1 }
    else if isClass cmNewline c then
      (parserParseSpartanLength lookup s).andThen fun _ s =>
        if c = 13 then .ok .next { s with parser.state := .waitFinalLineLf }
        else if c = 10 then
          .ok .next { s with parser.toleratedLf := true, parser.state := s.parser.contentOrEnd }
        else .ok .next s
    else .error (invalidSymbol c) s
  | .waitFinalLineLf =>
    if c = 10 then .ok .next { s with parser.state := s.parser.contentOrEnd }
    else .error (invalidSymbol c) s
  | .waitContent => .ok .halt (parseContent available s)
  | _ => .error afterRequestEnd s

/-- `parser_parse_spartan` -/
def parserParseSpartan (lookup : Lookup) : List UInt8 → Progress → Outcome ExError Progress Unit :=
  parsePart .waitMethodEnd (parserParseSpartanStep lookup)

end Twinkleshine
