import Twinkleshine.Parser.Defs
import Twinkleshine.Parser.Language

/-!
# The HTTP parser

Reference: `source/parser/http_parser.c`.
-/

namespace Twinkleshine

open Library

/-! ## Header fields -/

/-- The loop over the words of a `Connection` header: whether one of them is `keep-alive`, `none`
when the loop never ends. -/
def connectionKeepAlive : ℕ → ConstantValue → Option Bool
  | 0, _ => none
  | fuel + 1, value =>
    let (value, currentValue, partsRemaining) := valueParseComma value
    let currentValue := valueTrim currentValue
    if valueCompareCaseMem currentValue (ascii "keep-alive") then some true
    else if !partsRemaining then some false
    else connectionKeepAlive fuel value

/-- `parser_parse_http_name_value` -/
def parserParseHttpNameValue (lookup : Lookup) (s : Progress) : Outcome ExError Progress Unit :=
  match lookup s.parser.currentName with
  | .error e => .error (extend .closeLogDie e) s
  | .ok name =>
    if valueCompareCaseMem name (ascii "content-length") then
      match lookup s.parser.currentValue with
      | .error e => .error (extend .closeLogDie e) s
      | .ok value =>
        match valueToUint (valueTrim value) with
        | none => .error ⟨"Invalid integer", .sendShutdownLog .requestInvalid⟩ s
        | some remainingContent =>
          let s := { s with parser.remainingContent := remainingContent }
          if sizeAdd (sizeAdd s.parser.currentValue.offset s.parser.currentValue.size)
              remainingContent ≤ maxRequestSize then .ok () s
          else .error ⟨"Promised request size exceeded", .sendShutdownLog .maxRequestContentSize⟩ s
    else if valueCompareCaseMem name (ascii "connection") then
      match lookup s.parser.currentValue with
      | .error e => .error (extend .closeLogDie e) s
      | .ok value =>
        match connectionKeepAlive (valueSize value + 2) value with
        | none => .hang
        | some true => .ok () { s with request.keepAlive := true }
        | some false => .ok () s
    else if valueCompareCaseMem name (ascii "user-agent") then
      .ok () { s with request.user := s.parser.currentValue }
    else if valueCompareCaseMem name (ascii "accept-language") then
      match lookup s.parser.currentValue with
      | .error e => .error (extend .closeLogDie e) s
      | .ok value =>
        .ok () { s with request.language := parserParseHttpLanguage Float value }
    else .ok () s

/-! ## The state machine -/

/-- The state after the empty line: wait for the content, if any is promised. -/
def Parser.contentOrEnd (parser : Parser) : ParserState :=
  if parser.remainingContent > 0 then .waitContent else .end

/-- `RPS_WAIT_CONTENT` of the HTTP and Spartan parsers: the content is processed in bulk. -/
def parseContent (available : ℕ) (s : Progress) : Progress :=
  if available ≥ s.parser.remainingContent then
    { s with
      request.streamSize := s.request.streamSize + s.parser.remainingContent
      parser.state := .end }
  else { s with request.streamSize := s.request.streamSize + available }

/-- The `switch` of `parser_parse_http` on one character. -/
def parserParseHttpStep (lookup : Lookup) : ParserStep := fun available c s =>
  match s.parser.state with
  | .waitMethodBegin =>
    if isClass cmSpace c then .ok .next s
    else if isClass cmMethod c then
      .ok .next { s with
        request.method := ⟨s.request.streamSize, 1⟩, parser.state := .waitMethodEnd }
    else .error (invalidSymbol c) s
  | .waitMethodEnd =>
    if isClass cmSpace c then .ok .next { s with parser.state := .waitResourceBegin }
    else if isClass cmMethod c then
      .ok .next { s with request.method.size := s.request.method.size + 1 }
    else .error (invalidSymbol c) s
  | .waitResourceBegin =>
    if isClass cmSpace c then .ok .next s
    else if isClass cmResource c then
      .ok .next { s with
        request.resource := ⟨s.request.streamSize, 1⟩, parser.state := .waitResourceEnd }
    else .error (invalidSymbol c) s
  | .waitResourceEnd =>
    if isClass cmSpace c then .ok .next { s with parser.state := .waitProtocolBegin }
    else if isClass cmResource c then
      .ok .next { s with request.resource.size := s.request.resource.size + 1 }
    else .error (invalidSymbol c) s
  | .waitProtocolBegin =>
    if isClass cmSpace c then .ok .next s
    else if isClass cmProtocol c then
      .ok .next { s with
        request.protocol := ⟨s.request.streamSize, 1⟩, parser.state := .waitProtocolEnd }
    else .error (invalidSymbol c) s
  | .waitProtocolEnd =>
    if isClass cmSpace c then .ok .next { s with parser.state := .waitLineCr }
    else if isClass cmProtocol c then
      .ok .next { s with request.protocol.size := s.request.protocol.size + 1 }
    else if isClass cmNewline c then
      if c = 13 then .ok .next { s with parser.state := .waitLineLf }
      else -- tolerating LF ending
        .ok .next { s with parser.toleratedLf := true, parser.state := .waitNameBegin }
    else .error (invalidSymbol c) s
  | .waitLineCr =>
    if isClass cmSpace c then .ok .next s
    else if isClass cmNewline c then
      if c = 13 then .ok .next { s with parser.state := .waitLineLf }
      else -- tolerating LF ending
        .ok .next { s with parser.toleratedLf := true, parser.state := .waitNameBegin }
    else .error (invalidSymbol c) s
  | .waitLineLf =>
    if isClass cmSpace c then -- tolerating CR ending
      .ok .next { s with parser.toleratedCr := true, parser.state := .waitNameBegin }
    else if isClass cmName c then -- tolerating CR ending
      .ok .next { s with
        parser.toleratedCr := true, parser.currentName := ⟨s.request.streamSize, 1⟩
        parser.state := .waitNameEnd }
    else if isClass cmNewline c then
      if c = 13 then -- received CR CR
        .ok .next { s with
          parser.toleratedCr := true, parser.state := s.parser.contentOrEnd }
      else .ok .next { s with parser.state := .waitNameBegin }
    else .ok .next s -- no error branch: other characters are skipped
  | .waitNameBegin =>
    if isClass cmSpace c then .ok .next s
    else if isClass cmName c then
      .ok .next { s with
        parser.currentName := ⟨s.request.streamSize, 1⟩, parser.state := .waitNameEnd }
    else if isClass cmNewline c then
      if c = 13 then
        if !s.parser.toleratedCr then -- received CR LF CR
          .ok .next { s with parser.state := .waitFinalLineLf }
        else -- received CR CR
          .ok .next { s with parser.state := s.parser.contentOrEnd }
      else -- received ?? LF
        .ok .next { s with parser.toleratedLf := true, parser.state := s.parser.contentOrEnd }
    else .error (invalidSymbol c) s
  | .waitNameEnd =>
    if isClass cmSpace c then .ok .next { s with parser.state := .waitColon }
    else if isClass cmName c then
      .ok .next { s with parser.currentName.size := s.parser.currentName.size + 1 }
    else if c = 58 then
      .ok .next { s with
        parser.currentValue := ⟨s.request.streamSize + 1, 0⟩, parser.state := .waitValueEnd }
    else .error (invalidSymbol c) s
  | .waitColon =>
    if isClass cmSpace c then .ok .next s
    else if c = 58 then
      .ok .next { s with
        parser.currentValue := ⟨s.request.streamSize + 1, 0⟩, parser.state := .waitValueEnd }
    else .error (invalidSymbol c) s
  | .waitValueEnd =>
    if isClass cmValue c then
      .ok .next { s with parser.currentValue.size := s.parser.currentValue.size + 1 }
    else if isClass cmNewline c then
      (parserParseHttpNameValue lookup s).andThen fun _ s =>
        if c = 13 then
          if !s.parser.toleratedCr then .ok .next { s with parser.state := .waitLineLf }
          else .ok .next { s with parser.state := .waitNameBegin }
        else .ok .next { s with parser.toleratedLf := true, parser.state := .waitNameBegin }
    else .error (invalidSymbol c) s
  | .waitFinalLineLf =>
    if c = 10 then -- received CR LF CR LF
      .ok .next { s with parser.state := s.parser.contentOrEnd }
    else .error (invalidSymbol c) s
  | .waitContent => .ok .halt (parseContent available s)
  | .end | .begin =>
    if s.request.keepAlive then .ok .halt s else .error afterRequestEnd s

/-- `parser_parse_http` -/
def parserParseHttp (lookup : Lookup) : List UInt8 → Progress → Outcome ExError Progress Unit :=
  parsePart .waitMethodBegin (parserParseHttpStep lookup)

end Twinkleshine
