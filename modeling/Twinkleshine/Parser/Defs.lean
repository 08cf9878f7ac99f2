import Twinkleshine.ExtendedError
import Twinkleshine.Library.Scanner
import Twinkleshine.RingTheorems
import Twinkleshine.Tables

/-!
# Requests and parsers

Reference: `include/parser.h`.

A parser and the request it fills form one state machine, `Progress`. A parser function scans one
contiguous part of the bytes that are not parsed yet; `request.stream_size` counts them.
-/

namespace Twinkleshine

open Library

/-- `struct Request`: the fields that are necessary to form a response. The `content` of the source is
never set and never read. -/
structure Request where
  streamSize : ℕ
  method : ValueLocation
  resource : ValueLocation
  protocol : ValueLocation
  user : ValueLocation
  language : UInt8
  keepAlive : Bool
deriving DecidableEq, Repr

/-- `ZERO_INIT` -/
def Request.zero : Request := ⟨0, .zero, .zero, .zero, .zero, 0, false⟩

/-- `enum ParserState` -/
inductive ParserState where
  | begin
  | end
  | waitMethodBegin
  | waitMethodEnd
  | waitResourceBegin
  | waitResourceEnd
  | waitProtocolBegin
  | waitProtocolEnd
  | waitLineCr
  | waitLineLf
  | waitNameBegin
  | waitNameEnd
  | waitColon
  | waitValueEnd
  | waitFinalLineLf
  | waitContent
deriving DecidableEq, Repr

/-- `struct Parser`, complements `Request`. -/
structure Parser where
  state : ParserState
  remainingContent : ℕ
  toleratedLf : Bool
  toleratedCr : Bool
  currentName : ValueLocation
  currentValue : ValueLocation
deriving DecidableEq, Repr

/-- `ZERO_INIT` -/
def Parser.zero : Parser := ⟨.begin, 0, false, false, .zero, .zero⟩

/-- A parser and the request it fills. -/
structure Progress where
  parser : Parser
  request : Request
deriving DecidableEq, Repr

/-- `ZERO_INIT` of both. -/
def Progress.zero : Progress := ⟨.zero, .zero⟩

/-- `request->stream_size++` of the loops. -/
def Progress.bump (s : Progress) : Progress :=
  { s with request.streamSize := s.request.streamSize + 1 }

@[simp] theorem Progress.bump_parser (s : Progress) : s.bump.parser = s.parser := rfl

@[simp] theorem Progress.bump_streamSize (s : Progress) :
    s.bump.request.streamSize = s.request.streamSize + 1 := rfl

/-- How `ring_get` answers on the request stream. -/
abbrev Lookup := ValueLocation → Except Error ConstantValue

/-- One character of a parser function. -/
abbrev ParserStep := ℕ → UInt8 → Progress → Outcome ExError Progress Flow

/-- The grammar error of every parser. -/
def invalidSymbol (c : UInt8) : ExError :=
  ⟨s!"Invalid symbol: {c.toInt8.toInt}", .sendShutdownLog .requestInvalid⟩

/-- The error of the default branches. -/
def afterRequestEnd : ExError :=
  ⟨"Received symbols after request end", .sendShutdownLog .requestInvalid⟩

/-- `if (parser->state == RPS_BEGIN) parser->state = initial;` -/
def Progress.begin (initial : ParserState) (s : Progress) : Progress :=
  if s.parser.state = .begin then { s with parser.state := initial } else s

/-- A parser function: it enters its initial state and scans the part. -/
def parsePart (initial : ParserState) (step : ParserStep) (part : List UInt8) (s : Progress) :
    Outcome ExError Progress Unit :=
  scan step Progress.bump part (s.begin initial)

end Twinkleshine
