import Twinkleshine.Value

/-!
# The language of a request

Reference: `source/language.c`, `parser_parse_http_language` in `source/parser/http_parser.c`.

The parser is a state machine over the value of an `Accept-Language` header. Its quality values are
`double`; the arithmetic is a class, so that the machine can also be run over exact numbers.
-/

namespace Twinkleshine

/-- The arithmetic of quality values. -/
class QNumber (Q : Type) extends Add Q, Mul Q, Div Q, Neg Q where
  ofNat : ℕ → Q
  less : Q → Q → Bool
  notEqual : Q → Q → Bool

instance : QNumber Float where
  ofNat := Float.ofNat
  less a b := a < b
  notEqual a b := a != b

def maxLanguageSize : ℕ := 2

/-- `language_get`; `'\0'` when the language is unknown. -/
def languageGet (language0 language1 : UInt8) (languageSize : ℕ) : UInt8 :=
  if languageSize = 2 ∧ language0 = 101 ∧ language1 = 110 then 101 -- "en" is 'e'
  else if languageSize = 2 ∧ language0 = 100 ∧ language1 = 101 then 100 -- "de" is 'd'
  else 0

/-- `enum LanguageParserState` -/
inductive LanguageParserState where
  | waitLanguageBegin
  | waitLanguageFirstCharacters
  | waitCommaSemicolon
  | waitQ
  | waitEqual
  | waitNumber
deriving DecidableEq, Repr

/-- The local variables of `parser_parse_http_language`. -/
structure LanguageParser (Q : Type) where
  state : LanguageParserState
  bestLanguage : UInt8
  bestQ : Q
  language0 : UInt8
  language1 : UInt8
  languageSize : ℕ
  q : Q
  qMultiplier : Q

section

variable {Q : Type} [QNumber Q]

open QNumber

/-- The variables before the first character; those the source leaves unset are zero here and are
set before they are read. -/
def LanguageParser.start : LanguageParser Q :=
  ⟨.waitLanguageBegin, 0, ofNat 0, 0, 0, 0, ofNat 0, ofNat 0⟩

/-- `parser_parse_http_language_commit` -/
def parserParseHttpLanguageCommit (parser : LanguageParser Q) (q : Q) : LanguageParser Q :=
  let q := if notEqual q q then ofNat 0 else if less (ofNat 1) q then ofNat 1
    else if less q (ofNat 0) then ofNat 0 else q
  let result := languageGet parser.language0 parser.language1 parser.languageSize
  if result ≠ 0 && less parser.bestQ q then { parser with bestLanguage := result, bestQ := q }
  else parser

/-- A letter or a star. -/
def isLanguageCharacter (c : UInt8) : Bool :=
  (65 ≤ c && c ≤ 90) || (97 ≤ c && c ≤ 122) || c == 42

/-- One character, `none` when the function returns the best language so far. -/
def parserParseHttpLanguageStep (parser : LanguageParser Q) (c : UInt8) :
    Option (LanguageParser Q) :=
  match parser.state with
  | .waitLanguageBegin =>
    if c = 32 then some parser
    else if isLanguageCharacter c then
      some { parser with
        language0 := lowerCase c, language1 := 0, languageSize := 1, q := ofNat 1
        qMultiplier := -ofNat 1, state := .waitLanguageFirstCharacters }
    else none
  | .waitLanguageFirstCharacters =>
    if c = 32 ∨ c = 45 then some { parser with state := .waitCommaSemicolon }
    else if c = 44 then
      some { parserParseHttpLanguageCommit parser (ofNat 1) with state := .waitLanguageBegin }
    else if c = 59 then some { parser with state := .waitQ }
    else if isLanguageCharacter c then
      -- the first character is set already, so this one is `language[1]`
      let parser := { parser with
        language1 := lowerCase c, languageSize := parser.languageSize + 1 }
      some (if parser.languageSize = maxLanguageSize then
        { parser with state := .waitCommaSemicolon } else parser)
    else none
  | .waitCommaSemicolon =>
    if c = 32 ∨ c = 45 then some parser
    else if c = 44 then
      some { parserParseHttpLanguageCommit parser (ofNat 1) with state := .waitLanguageBegin }
    else if c = 59 then some { parser with state := .waitQ }
    else if isLanguageCharacter c then some { parser with languageSize := maxLanguageSize + 1 }
    else none
  | .waitQ =>
    if c = 32 then some parser
    else if c = 81 ∨ c = 113 then some { parser with state := .waitEqual }
    else none
  | .waitEqual =>
    if c = 32 then some parser
    else if c = 61 then some { parser with q := ofNat 0, state := .waitNumber }
    else none
  | .waitNumber =>
    if c = 32 then some parser
    else if c = 44 then
      some { parserParseHttpLanguageCommit parser parser.q with state := .waitLanguageBegin }
    else if c = 46 then some { parser with qMultiplier := ofNat 1 }
    else if 48 ≤ c && c ≤ 57 then
      let digit : Q := ofNat (c.toNat - 48)
      if less parser.qMultiplier (ofNat 0) then
        some { parser with q := ofNat 10 * parser.q + digit }
      else
        let qMultiplier := parser.qMultiplier / ofNat 10
        some { parser with qMultiplier := qMultiplier, q := parser.q + qMultiplier * digit }
    else none

/-- The loop over the characters of one part: the variables after it, or what is returned. -/
def parserParseHttpLanguagePart : List UInt8 → LanguageParser Q → Except UInt8 (LanguageParser Q)
  | [], parser => .ok parser
  | c :: cs, parser =>
    match parserParseHttpLanguageStep parser c with
    | some parser => parserParseHttpLanguagePart cs parser
    | none => .error parser.bestLanguage

variable (Q)

/-- `parser_parse_http_language` -/
def parserParseHttpLanguage (acceptLanguage : ConstantValue) : UInt8 :=
  let parsed : Except UInt8 (LanguageParser Q) :=
    (parserParseHttpLanguagePart acceptLanguage.part0 .start).bind
      (parserParseHttpLanguagePart acceptLanguage.part1)
  match parsed with
  | .error language => language
  | .ok parser =>
    if parser.state ≠ .waitLanguageBegin then
      (parserParseHttpLanguageCommit parser parser.q).bestLanguage
    else parser.bestLanguage

variable {Q}

theorem parserParseHttpLanguagePart_append (xs ys : List UInt8) (parser : LanguageParser Q) :
    parserParseHttpLanguagePart (xs ++ ys) parser
      = (parserParseHttpLanguagePart xs parser).bind (parserParseHttpLanguagePart ys) := by
  induction xs generalizing parser with
  | nil => rfl
  | cons x xs ih =>
    simp only [List.cons_append, parserParseHttpLanguagePart]
    cases parserParseHttpLanguageStep parser x with
    | some parser => exact ih parser
    | none => rfl

/-- The language depends on the concatenation of the parts alone. -/
theorem parserParseHttpLanguage_congr {a b : ConstantValue} (h : a.bytes = b.bytes) :
    parserParseHttpLanguage Q a = parserParseHttpLanguage Q b := by
  simp only [ConstantValue.bytes] at h
  simp only [parserParseHttpLanguage, ← parserParseHttpLanguagePart_append, h]

end

end Twinkleshine
