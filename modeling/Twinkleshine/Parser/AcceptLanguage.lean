import Twinkleshine.Library.FirstMax
import Twinkleshine.Parser.Language
import Mathlib.Algebra.Order.Field.Rat
import Mathlib.Tactic.FieldSimp
import Mathlib.Tactic.Linarith
import Mathlib.Tactic.Positivity
import Mathlib.Tactic.Ring

/-!
# What an `Accept-Language` header asks for

The value of the header is a list of language ranges with weights. Over exact numbers, the parser of
`Parser/Language.lean` finds the first of the ranges with the greatest weight among those that are a
language the server has. Reference: `parser_parse_http_language` in `source/parser/http_parser.c`.
-/

namespace Twinkleshine

open Library

/-- Exact quality values -/
instance : QNumber ℚ where
  ofNat n := n
  less a b := decide (a < b)
  notEqual a b := decide (a ≠ b)

/-! ## The header -/

def isLetter (c : UInt8) : Bool := (65 ≤ c && c ≤ 90) || (97 ≤ c && c ≤ 122)

def isDigit (c : UInt8) : Bool := 48 ≤ c && c ≤ 57

/-- A language range: a star, or words joined by hyphens. -/
inductive LanguageTag where
  | star
  | words (first : List UInt8) (more : List (List UInt8))
deriving DecidableEq, Repr

namespace LanguageTag

def bytes : LanguageTag → List UInt8
  | star => ascii "*"
  | words first more => first ++ more.flatMap (45 :: ·)

def WellFormed : LanguageTag → Prop
  | star => True
  | words first more => ∀ word ∈ first :: more, word ≠ [] ∧ ∀ c ∈ word, isLetter c = true

instance : DecidablePred WellFormed
  | star => .isTrue trivial
  | words first more =>
    inferInstanceAs (Decidable (∀ word ∈ first :: more, word ≠ [] ∧ ∀ c ∈ word, isLetter c = true))

/-- The code of the language the range is, up to the case of its letters, or `'\0'`. -/
def language : LanguageTag → UInt8
  | words first [] =>
    if first.map lowerCase = ascii "en" then 101
    else if first.map lowerCase = ascii "de" then 100
    else 0
  | _ => 0

end LanguageTag

/-- A decimal number: digits, and perhaps a point and more digits. -/
structure Decimal where
  whole : List UInt8
  fraction : Option (List UInt8)
deriving DecidableEq, Repr

/-- The number that digits write. -/
def digitsValue : List UInt8 → ℕ
  | [] => 0
  | c :: digits => (c.toNat - 48) * 10 ^ digits.length + digitsValue digits

namespace Decimal

def bytes (decimal : Decimal) : List UInt8 :=
  decimal.whole ++ match decimal.fraction with
    | none => []
    | some digits => 46 :: digits

structure WellFormed (decimal : Decimal) : Prop where
  whole_ne : decimal.whole ≠ []
  whole : ∀ c ∈ decimal.whole, isDigit c = true
  fraction : ∀ digits ∈ decimal.fraction, ∀ c ∈ digits, isDigit c = true

instance : DecidablePred WellFormed := fun decimal =>
  decidable_of_iff (decimal.whole ≠ [] ∧ decimal.whole.all isDigit = true ∧
      decimal.fraction.all (fun digits => digits.all isDigit) = true) (by
    simp only [List.all_eq_true, Option.all_eq_true]
    exact ⟨fun h => ⟨h.1, h.2.1, h.2.2⟩, fun h => ⟨h.whole_ne, h.whole, h.fraction⟩⟩)

def value (decimal : Decimal) : ℚ :=
  digitsValue decimal.whole + match decimal.fraction with
    | none => 0
    | some digits => digitsValue digits / 10 ^ digits.length

end Decimal

def spaces (n : ℕ) : List UInt8 := List.replicate n 32

/-- A weight `;q=` with spaces around its separators. -/
structure Weight where
  beforeSemicolon : ℕ
  afterSemicolon : ℕ
  /-- `q` or `Q` -/
  letter : UInt8
  beforeEqual : ℕ
  afterEqual : ℕ
  decimal : Decimal
deriving DecidableEq, Repr

namespace Weight

def bytes (weight : Weight) : List UInt8 :=
  spaces weight.beforeSemicolon ++ 59 :: (spaces weight.afterSemicolon ++ weight.letter ::
    (spaces weight.beforeEqual ++ 61 :: (spaces weight.afterEqual ++ weight.decimal.bytes)))

structure WellFormed (weight : Weight) : Prop where
  letter : weight.letter = 81 ∨ weight.letter = 113
  decimal : weight.decimal.WellFormed

instance : DecidablePred WellFormed := fun weight =>
  decidable_of_iff ((weight.letter = 81 ∨ weight.letter = 113) ∧ weight.decimal.WellFormed)
    ⟨fun h => ⟨h.1, h.2⟩, fun h => ⟨h.letter, h.decimal⟩⟩

end Weight

/-- A language range with its weight, and the spaces around both. -/
structure LanguageRange where
  before : ℕ
  tag : LanguageTag
  weight : Option Weight
  after : ℕ
deriving DecidableEq, Repr

namespace LanguageRange

def bytes (range : LanguageRange) : List UInt8 :=
  spaces range.before ++ (range.tag.bytes ++ ((match range.weight with
    | none => []
    | some weight => weight.bytes) ++ spaces range.after))

structure WellFormed (range : LanguageRange) : Prop where
  tag : range.tag.WellFormed
  weight : ∀ weight ∈ range.weight, weight.WellFormed

instance : DecidablePred WellFormed := fun range =>
  decidable_of_iff (range.tag.WellFormed ∧ ∀ weight ∈ range.weight, weight.WellFormed)
    ⟨fun h => ⟨h.1, h.2⟩, fun h => ⟨h.tag, h.weight⟩⟩

/-- The number of the weight, which is one by default. -/
def q (range : LanguageRange) : ℚ :=
  match range.weight with
  | none => 1
  | some weight => weight.decimal.value

/-- The weight, clamped between zero and one. -/
def quality (range : LanguageRange) : ℚ := max 0 (min 1 range.q)

/-- Whether the range is a language the server has, and wanted. -/
def eligible (range : LanguageRange) : Bool := range.tag.language ≠ 0 && 0 < range.quality

end LanguageRange

/-- The value of the header: ranges with commas between them. -/
def acceptLanguageBytes (ranges : List LanguageRange) : List UInt8 :=
  [44].intercalate (ranges.map LanguageRange.bytes)

/-! ## Runs of the parser -/

/-- Reading these characters takes the parser from `s` to `t`. -/
def Parses (characters : List UInt8) (s t : LanguageParser ℚ) : Prop :=
  parserParseHttpLanguagePart characters s = .ok t

namespace Parses

variable {s t u : LanguageParser ℚ}

theorem nil (s : LanguageParser ℚ) : Parses [] s s := rfl

theorem cons {c : UInt8} {characters : List UInt8} (hstep : parserParseHttpLanguageStep s c = some t)
    (h : Parses characters t u) : Parses (c :: characters) s u := by
  rw [Parses, parserParseHttpLanguagePart, hstep]
  exact h

theorem append {characters more : List UInt8} (h : Parses characters s t) (h' : Parses more t u) :
    Parses (characters ++ more) s u := by
  rw [Parses, parserParseHttpLanguagePart_append, h]
  exact h'

/-- Spaces where nothing happens on a space. -/
theorem spaces (hstep : parserParseHttpLanguageStep s 32 = some s) (n : ℕ) :
    Parses (spaces n) s s := by
  induction n with
  | zero => exact nil s
  | succ n ih => exact cons hstep ih

end Parses

section

variable {s : LanguageParser ℚ}

/-- A letter is no separator. -/
theorem isLetter_ne {c : UInt8} (h : isLetter c = true) :
    isLanguageCharacter c = true ∧ c ≠ 32 ∧ c ≠ 45 ∧ c ≠ 44 ∧ c ≠ 59 := by
  refine ⟨by rw [isLanguageCharacter, ← isLetter, h, Bool.true_or], ?_, ?_, ?_, ?_⟩
  all_goals
    rintro rfl
    exact absurd h (by decide)

/-- A digit is neither a space nor a comma nor a point. -/
theorem isDigit_ne {c : UInt8} (h : isDigit c = true) : c ≠ 32 ∧ c ≠ 44 ∧ c ≠ 46 := by
  refine ⟨?_, ?_, ?_⟩
  all_goals
    rintro rfl
    exact absurd h (by decide)

/-- Behind the first two letters, any other letter makes the word too long. -/
theorem Parses.longWord {characters : List UInt8}
    (h : ∀ c ∈ characters, isLetter c = true ∨ c = 45) (hstate : s.state = .waitCommaSemicolon) :
    Parses characters s { s with
      languageSize := if ∃ c ∈ characters, isLetter c = true then maxLanguageSize + 1
        else s.languageSize } := by
  induction characters generalizing s with
  | nil => simpa using Parses.nil s
  | cons c characters ih =>
    have hrest := fun d hd => h d (List.mem_cons_of_mem c hd)
    rcases h c List.mem_cons_self with hletter | rfl
    · obtain ⟨hcharacter, hspace, hhyphen, hcomma, hsemicolon⟩ := isLetter_ne hletter
      have hlong : ∃ d ∈ c :: characters, isLetter d = true := ⟨c, List.mem_cons_self, hletter⟩
      rw [if_pos hlong]
      refine Parses.cons (t := { s with languageSize := maxLanguageSize + 1 }) ?_ ?_
      · simp [parserParseHttpLanguageStep, hstate, hcharacter, hspace, hhyphen, hcomma, hsemicolon]
      · simpa using ih (s := { s with languageSize := maxLanguageSize + 1 }) hrest hstate
    · refine Parses.cons (t := s) (by simp [parserParseHttpLanguageStep, hstate]) ?_
      simpa [isLetter] using ih hrest hstate

/-- The parser behind a language range: it knows the language, and its best language is that of `s`. -/
structure AfterTag (s : LanguageParser ℚ) (tag : LanguageTag) (t : LanguageParser ℚ) : Prop where
  state : t.state = .waitLanguageFirstCharacters ∨ t.state = .waitCommaSemicolon
  language : languageGet t.language0 t.language1 t.languageSize = tag.language
  q : t.q = 1
  qMultiplier : t.qMultiplier = -1
  bestLanguage : t.bestLanguage = s.bestLanguage
  bestQ : t.bestQ = s.bestQ

/-- The parser behind the first character of a range. -/
def LanguageParser.begun (s : LanguageParser ℚ) (c : UInt8) : LanguageParser ℚ :=
  { s with
    language0 := lowerCase c, language1 := 0, languageSize := 1, q := 1, qMultiplier := -1
    state := .waitLanguageFirstCharacters }

theorem parserParseHttpLanguageStep_begin (hstate : s.state = .waitLanguageBegin) {c : UInt8}
    (hcharacter : isLanguageCharacter c = true) (hspace : c ≠ 32) :
    parserParseHttpLanguageStep s c = some (s.begun c) := by
  simp [parserParseHttpLanguageStep, hstate, hcharacter, hspace, LanguageParser.begun,
    QNumber.ofNat]

/-- A word of two letters is a language up to the case of its letters. -/
theorem languageGet_words (c d : UInt8) :
    languageGet (lowerCase c) (lowerCase d) 2 = (LanguageTag.words [c, d] []).language := by
  have hen : ascii "en" = [101, 110] := by rfl
  have hde : ascii "de" = [100, 101] := by rfl
  simp [languageGet, LanguageTag.language, hen, hde]

/-- A range of several words, or with a word of another length, is no language. -/
theorem LanguageTag.language_of_long {first : List UInt8} {more : List (List UInt8)}
    (h : first.length ≠ 2 ∨ more ≠ []) : (LanguageTag.words first more).language = 0 := by
  rcases more with _ | ⟨word, more⟩
  · have hlength := h.resolve_right fun hnil => hnil rfl
    rw [language, if_neg, if_neg]
    all_goals
      intro hword
      have := congrArg List.length hword
      rw [List.length_map] at this
      exact hlength this
  · rfl

/-- The characters of words are letters and hyphens. -/
theorem LanguageTag.mem_more {more : List (List UInt8)}
    (h : ∀ word ∈ more, word ≠ [] ∧ ∀ c ∈ word, isLetter c = true) :
    (∀ c ∈ more.flatMap (45 :: ·), isLetter c = true ∨ c = 45) ∧
      (more ≠ [] → ∃ c ∈ more.flatMap (45 :: ·), isLetter c = true) := by
  constructor
  · intro c hc
    obtain ⟨word, hword, hc⟩ := List.mem_flatMap.mp hc
    rcases List.mem_cons.mp hc with rfl | hc
    · exact .inr rfl
    · exact .inl ((h word hword).2 c hc)
  · intro hne
    obtain ⟨word, rest, rfl⟩ := List.exists_cons_of_ne_nil hne
    obtain ⟨hword, hletters⟩ := h word List.mem_cons_self
    obtain ⟨c, letters, rfl⟩ := List.exists_cons_of_ne_nil hword
    exact ⟨c, by simp, hletters c List.mem_cons_self⟩

/-- A language range is read to its end. -/
theorem LanguageTag.WellFormed.parses {tag : LanguageTag} (h : tag.WellFormed)
    (hstate : s.state = .waitLanguageBegin) : ∃ t, Parses tag.bytes s t ∧ AfterTag s tag t := by
  cases tag with
  | star =>
    refine ⟨s.begun 42, .cons (parserParseHttpLanguageStep_begin hstate rfl (by decide)) (.nil _),
      .inl rfl, rfl, rfl, rfl, rfl, rfl⟩
  | words first more =>
    obtain ⟨hfirst, hletters⟩ := h first List.mem_cons_self
    obtain ⟨hmore, hmoreLetter⟩ :=
      LanguageTag.mem_more fun word hword => h word (List.mem_cons_of_mem _ hword)
    -- a language is a word of two letters and nothing else, so its first word decides
    rcases first with _ | ⟨c, _ | ⟨d, rest⟩⟩
    · exact absurd rfl hfirst
    · obtain ⟨hcharacter, hspace, -⟩ := isLetter_ne (hletters c List.mem_cons_self)
      have hbegin := parserParseHttpLanguageStep_begin hstate hcharacter hspace
      rcases more with _ | ⟨word, more⟩
      · exact ⟨s.begun c, .cons hbegin (.nil _), .inl rfl,
          (LanguageTag.language_of_long (.inl (by simp))).symm, rfl, rfl, rfl, rfl⟩
      · have hhyphen : parserParseHttpLanguageStep (s.begun c) 45
            = some { s.begun c with state := .waitCommaSemicolon } := by
          simp [parserParseHttpLanguageStep, LanguageParser.begun]
        obtain ⟨e, he, heletter⟩ := hmoreLetter (List.cons_ne_nil _ _)
        have heword : e ∈ word ++ more.flatMap (45 :: ·) :=
          (List.mem_cons.mp he).resolve_left fun h45 => absurd (h45 ▸ heletter) (by decide)
        have hlong := Parses.longWord (s := { s.begun c with state := .waitCommaSemicolon })
          (fun e he => hmore e (List.mem_cons_of_mem _ he)) rfl
        rw [if_pos ⟨e, heword, heletter⟩] at hlong
        exact ⟨_, .cons hbegin (.cons hhyphen hlong), .inr rfl,
          (LanguageTag.language_of_long (.inr (List.cons_ne_nil _ _))).symm, rfl, rfl, rfl, rfl⟩
    · obtain ⟨hcharacter, hspace, -⟩ := isLetter_ne (hletters c List.mem_cons_self)
      have hd := hletters d (List.mem_cons_of_mem _ List.mem_cons_self)
      have hbegin := parserParseHttpLanguageStep_begin hstate hcharacter hspace
      obtain ⟨hdcharacter, hdspace, hdhyphen, hdcomma, hdsemicolon⟩ := isLetter_ne hd
      -- two letters were read, and look like a language until something follows
      set two : LanguageParser ℚ := { s.begun c with
        language1 := lowerCase d, languageSize := 2, state := .waitCommaSemicolon } with htwo
      have hsecond : parserParseHttpLanguageStep (s.begun c) d = some two := by
        simp [parserParseHttpLanguageStep, LanguageParser.begun, hdcharacter, hdspace, hdhyphen,
          hdcomma, hdsemicolon, maxLanguageSize, htwo]
      have hall : ∀ e ∈ rest ++ more.flatMap (45 :: ·), isLetter e = true ∨ e = 45 := by
        intro e he
        rcases List.mem_append.mp he with he | he
        · exact .inl (hletters e (List.mem_cons_of_mem _ (List.mem_cons_of_mem _ he)))
        · exact hmore e he
      have hlong := Parses.longWord (s := two) hall rfl
      refine ⟨_, .cons hbegin (.cons hsecond hlong), .inr rfl, ?_, rfl, rfl, rfl, rfl⟩
      split_ifs with hletter
      · obtain ⟨e, he, heletter⟩ := hletter
        refine (LanguageTag.language_of_long ?_).symm
        rcases List.mem_append.mp he with he | he
        · exact .inl (by simp [List.length_eq_zero_iff, List.ne_nil_of_mem he])
        · exact .inr fun hnil => by simp [hnil] at he
      · have hrest : rest = [] := List.eq_nil_iff_forall_not_mem.mpr fun e he =>
          hletter ⟨e, List.mem_append_left _ he,
            hletters e (List.mem_cons_of_mem _ (List.mem_cons_of_mem _ he))⟩
        have hnone : more = [] := by
          by_contra hne
          obtain ⟨e, he, heletter⟩ := hmoreLetter hne
          exact hletter ⟨e, List.mem_append_right _ he, heletter⟩
        rw [hrest, hnone]
        exact languageGet_words c d

/-- Spaces behind a language range. -/
theorem AfterTag.spaces {tag : LanguageTag} {t : LanguageParser ℚ} (h : AfterTag s tag t) (n : ℕ) :
    ∃ u, Parses (Twinkleshine.spaces n) t u ∧ AfterTag s tag u := by
  obtain ⟨hstate, hlanguage, hq, hqMultiplier, hbestLanguage, hbestQ⟩ := h
  have hwait : ∀ v : LanguageParser ℚ, v.state = .waitCommaSemicolon →
      Parses (Twinkleshine.spaces n) v v := fun v hv =>
    .spaces (by simp [parserParseHttpLanguageStep, hv]) n
  rcases hstate with hstate | hstate
  · rcases n with _ | n
    · exact ⟨t, .nil t, .inl hstate, hlanguage, hq, hqMultiplier, hbestLanguage, hbestQ⟩
    · have hstep : parserParseHttpLanguageStep t 32
          = some { t with state := .waitCommaSemicolon } := by
        simp [parserParseHttpLanguageStep, hstate]
      exact ⟨_, .cons hstep (.spaces (by simp [parserParseHttpLanguageStep]) n), .inr rfl, hlanguage,
        hq, hqMultiplier, hbestLanguage, hbestQ⟩
  · exact ⟨t, hwait t hstate, .inr hstate, hlanguage, hq, hqMultiplier, hbestLanguage, hbestQ⟩

/-! ## Weights -/

/-- Digits in front of the point. -/
theorem Parses.whole {digits : List UInt8} (h : ∀ c ∈ digits, isDigit c = true)
    (hstate : s.state = .waitNumber) (hqMultiplier : s.qMultiplier = -1) :
    Parses digits s { s with q := s.q * 10 ^ digits.length + digitsValue digits } := by
  induction digits generalizing s with
  | nil => simpa [digitsValue] using Parses.nil s
  | cons c digits ih =>
    have hdigit := h c List.mem_cons_self
    obtain ⟨hspace, hcomma, hpoint⟩ := isDigit_ne hdigit
    have hstep : parserParseHttpLanguageStep s c
        = some { s with q := 10 * s.q + ((c.toNat - 48 : ℕ) : ℚ) } := by
      rw [isDigit] at hdigit
      simp [parserParseHttpLanguageStep, hstate, hspace, hcomma, hpoint, hdigit, hqMultiplier,
        QNumber.ofNat, QNumber.less]
    have hrest := ih (s := { s with q := 10 * s.q + ((c.toNat - 48 : ℕ) : ℚ) })
      (fun d hd => h d (List.mem_cons_of_mem c hd)) hstate hqMultiplier
    have hvalue : (10 * s.q + ((c.toNat - 48 : ℕ) : ℚ)) * 10 ^ digits.length + digitsValue digits
        = s.q * 10 ^ (c :: digits).length + digitsValue (c :: digits) := by
      rw [List.length_cons, digitsValue, pow_succ]
      push_cast
      ring
    rw [← hvalue]
    exact .cons hstep hrest

/-- Digits behind the point. -/
theorem Parses.fraction {digits : List UInt8} (h : ∀ c ∈ digits, isDigit c = true)
    (hstate : s.state = .waitNumber) (hqMultiplier : 0 < s.qMultiplier) :
    ∃ m, Parses digits s { s with
      q := s.q + s.qMultiplier * (digitsValue digits / 10 ^ digits.length), qMultiplier := m } := by
  induction digits generalizing s with
  | nil => exact ⟨s.qMultiplier, by simpa [digitsValue] using Parses.nil s⟩
  | cons c digits ih =>
    have hdigit := h c List.mem_cons_self
    obtain ⟨hspace, hcomma, hpoint⟩ := isDigit_ne hdigit
    set next : LanguageParser ℚ := { s with
      q := s.q + s.qMultiplier / 10 * ((c.toNat - 48 : ℕ) : ℚ)
      qMultiplier := s.qMultiplier / 10 } with hnext
    have hstep : parserParseHttpLanguageStep s c = some next := by
      rw [isDigit] at hdigit
      simp [parserParseHttpLanguageStep, hstate, hspace, hcomma, hpoint, hdigit,
        QNumber.ofNat, QNumber.less, not_lt.mpr hqMultiplier.le, hnext]
    obtain ⟨m, hrest⟩ := ih (s := next) (fun d hd => h d (List.mem_cons_of_mem c hd)) hstate
      (div_pos hqMultiplier (by norm_num))
    have hvalue : next.q + next.qMultiplier * (digitsValue digits / 10 ^ digits.length)
        = s.q + s.qMultiplier * (digitsValue (c :: digits) / 10 ^ (c :: digits).length) := by
      rw [hnext, List.length_cons, digitsValue, pow_succ]
      push_cast
      field_simp
      ring
    rw [hvalue] at hrest
    exact ⟨m, .cons hstep hrest⟩

/-- A decimal number is read to its end. -/
theorem Decimal.WellFormed.parses {decimal : Decimal} (h : decimal.WellFormed)
    (hstate : s.state = .waitNumber) (hq : s.q = 0) (hqMultiplier : s.qMultiplier = -1) :
    ∃ m, Parses decimal.bytes s { s with q := decimal.value, qMultiplier := m } := by
  have hwhole := Parses.whole h.whole hstate hqMultiplier
  rw [hq, zero_mul, zero_add] at hwhole
  rw [Decimal.bytes, Decimal.value]
  rcases hfraction : decimal.fraction with _ | digits
  · exact ⟨s.qMultiplier, by simpa using hwhole⟩
  · have hpoint : parserParseHttpLanguageStep { s with q := (digitsValue decimal.whole : ℚ) } 46
        = some { s with q := (digitsValue decimal.whole : ℚ), qMultiplier := 1 } := by
      simp [parserParseHttpLanguageStep, hstate, QNumber.ofNat]
    obtain ⟨m, hdigits⟩ := Parses.fraction
      (s := { s with q := (digitsValue decimal.whole : ℚ), qMultiplier := 1 })
      (h.fraction digits hfraction) hstate one_pos
    rw [one_mul] at hdigits
    exact ⟨m, hwhole.append (.cons hpoint hdigits)⟩

/-! ## Ranges -/

/-- The parser behind a range and its weight. -/
structure AfterRange (s : LanguageParser ℚ) (range : LanguageRange) (t : LanguageParser ℚ) :
    Prop where
  state : (t.state = .waitLanguageFirstCharacters ∨ t.state = .waitCommaSemicolon) ∧ range.q = 1 ∨
    t.state = .waitNumber
  language : languageGet t.language0 t.language1 t.languageSize = range.tag.language
  q : t.q = range.q
  bestLanguage : t.bestLanguage = s.bestLanguage
  bestQ : t.bestQ = s.bestQ

/-- A weight is read to its end. -/
theorem Weight.WellFormed.parses {weight : Weight} (h : weight.WellFormed) {tag : LanguageTag}
    {t : LanguageParser ℚ} (ht : AfterTag s tag t) :
    ∃ u, Parses weight.bytes t u ∧ u.state = .waitNumber ∧
      languageGet u.language0 u.language1 u.languageSize = tag.language ∧
      u.q = weight.decimal.value ∧ u.bestLanguage = s.bestLanguage ∧ u.bestQ = s.bestQ := by
  obtain ⟨t, hspaces, ht⟩ := ht.spaces weight.beforeSemicolon
  have hsemicolon : parserParseHttpLanguageStep t 59 = some { t with state := .waitQ } := by
    rcases ht.state with hstate | hstate <;> simp [parserParseHttpLanguageStep, hstate]
  have hafter : Parses (spaces weight.afterSemicolon) { t with state := .waitQ }
      { t with state := .waitQ } := .spaces (by simp [parserParseHttpLanguageStep]) _
  have hletter : parserParseHttpLanguageStep { t with state := .waitQ } weight.letter
      = some { t with state := .waitEqual } := by
    rcases h.letter with hq | hq <;> simp [parserParseHttpLanguageStep, hq]
  have hbefore : Parses (spaces weight.beforeEqual) { t with state := .waitEqual }
      { t with state := .waitEqual } := .spaces (by simp [parserParseHttpLanguageStep]) _
  have hequal : parserParseHttpLanguageStep { t with state := .waitEqual } 61
      = some { t with state := .waitNumber, q := 0 } := by
    simp [parserParseHttpLanguageStep, QNumber.ofNat]
  have hbehind : Parses (spaces weight.afterEqual) { t with state := .waitNumber, q := 0 }
      { t with state := .waitNumber, q := 0 } := .spaces (by simp [parserParseHttpLanguageStep]) _
  obtain ⟨m, hdecimal⟩ := h.decimal.parses (s := { t with state := .waitNumber, q := 0 }) rfl rfl
    ht.qMultiplier
  exact ⟨_, hspaces.append (.cons hsemicolon (hafter.append (.cons hletter (hbefore.append
    (.cons hequal (hbehind.append hdecimal)))))), rfl, ht.language, rfl, ht.bestLanguage, ht.bestQ⟩

/-- A range is read to its end. -/
theorem LanguageRange.WellFormed.parses {range : LanguageRange} (h : range.WellFormed)
    (hstate : s.state = .waitLanguageBegin) :
    ∃ t, Parses range.bytes s t ∧ AfterRange s range t := by
  have hbefore : Parses (spaces range.before) s s :=
    .spaces (by simp [parserParseHttpLanguageStep, hstate]) _
  obtain ⟨t, htag, ht⟩ := h.tag.parses hstate
  rw [LanguageRange.bytes]
  rcases hweight : range.weight with _ | weight
  · obtain ⟨u, hspaces, hu⟩ := ht.spaces range.after
    have hq : range.q = 1 := by rw [LanguageRange.q, hweight]
    exact ⟨u, hbefore.append (htag.append hspaces), .inl ⟨hu.state, hq⟩, hu.language,
      hu.q.trans hq.symm, hu.bestLanguage, hu.bestQ⟩
  · obtain ⟨u, hparses, hu, hlanguage, hq, hbestLanguage, hbestQ⟩ :=
      (h.weight weight hweight).parses ht
    have hafter : Parses (spaces range.after) u u :=
      .spaces (by simp [parserParseHttpLanguageStep, hu]) _
    exact ⟨u, hbefore.append (htag.append (hparses.append hafter)), .inr hu, hlanguage,
      by rw [hq, LanguageRange.q, hweight], hbestLanguage, hbestQ⟩

/-! ## The best range -/

/-- The parser's best language is that of the first of the eligible ranges with the greatest weight. -/
def HoldsBest (ranges : List LanguageRange) (language : UInt8) (q : ℚ) : Prop :=
  ranges.filter LanguageRange.eligible = [] ∧ language = 0 ∧ q = 0 ∨
    ∃ best, FirstMax LanguageRange.quality (ranges.filter LanguageRange.eligible) best ∧
      language = best.tag.language ∧ q = best.quality

theorem LanguageRange.eligible_iff {range : LanguageRange} :
    range.eligible = true ↔ range.tag.language ≠ 0 ∧ 0 < range.quality := by
  simp [LanguageRange.eligible]

theorem LanguageRange.quality_nonneg (range : LanguageRange) : 0 ≤ range.quality := le_max_left _ _

/-- A better range is the best of all. -/
theorem HoldsBest.concat_of_lt {ranges : List LanguageRange} {language : UInt8} {q : ℚ}
    (h : HoldsBest ranges language q) {range : LanguageRange} (hlanguage : range.tag.language ≠ 0)
    (hq : q < range.quality) : HoldsBest (ranges ++ [range]) range.tag.language range.quality := by
  have hfilter : range.quality > 0 → (ranges ++ [range]).filter LanguageRange.eligible
      = ranges.filter LanguageRange.eligible ++ [range] := fun hpos => by
    rw [List.filter_append, List.filter_cons_of_pos (LanguageRange.eligible_iff.mpr ⟨hlanguage, hpos⟩),
      List.filter_nil]
  refine .inr ⟨range, ?_, rfl, rfl⟩
  rcases h with ⟨hnone, -, rfl⟩ | ⟨best, hbest, -, rfl⟩
  · rw [hfilter hq, hnone]
    exact FirstMax.singleton _ _
  · rw [hfilter (best.quality_nonneg.trans_lt hq)]
    exact hbest.concat_of_lt hq

/-- Any other range leaves the best as it is. -/
theorem HoldsBest.concat_of_not {ranges : List LanguageRange} {language : UInt8} {q : ℚ}
    (h : HoldsBest ranges language q) {range : LanguageRange}
    (hrange : range.tag.language = 0 ∨ range.quality ≤ q) :
    HoldsBest (ranges ++ [range]) language q := by
  rw [HoldsBest, List.filter_append]
  by_cases heligible : range.eligible = true
  · obtain ⟨hlanguage, hpos⟩ := LanguageRange.eligible_iff.mp heligible
    have hq := hrange.resolve_left hlanguage
    rw [List.filter_cons_of_pos heligible, List.filter_nil]
    rcases h with ⟨-, -, rfl⟩ | ⟨best, hbest, hlang, rfl⟩
    · exact absurd hpos (not_lt.mpr hq)
    · exact .inr ⟨best, hbest.concat_of_le hq, hlang, rfl⟩
  · rw [List.filter_cons_of_neg heligible, List.filter_nil, List.append_nil]
    exact h

/-- Committing a range clamps its weight, and takes the range if it is better than the best so far. -/
theorem AfterRange.commit {range : LanguageRange} {t : LanguageParser ℚ} (h : AfterRange s range t)
    {ranges : List LanguageRange} (hbest : HoldsBest ranges s.bestLanguage s.bestQ) :
    HoldsBest (ranges ++ [range]) (parserParseHttpLanguageCommit t range.q).bestLanguage
      (parserParseHttpLanguageCommit t range.q).bestQ := by
  have hclamp : (if 1 < range.q then 1 else if range.q < 0 then 0 else range.q) = range.quality := by
    rw [LanguageRange.quality]
    split_ifs with hone hzero
    · rw [min_eq_left hone.le, max_eq_right zero_le_one]
    · rw [min_eq_right (not_lt.mp hone), max_eq_left hzero.le]
    · rw [min_eq_right (not_lt.mp hone), max_eq_right (not_lt.mp hzero)]
  have hcommit : parserParseHttpLanguageCommit t range.q
      = if range.tag.language ≠ 0 ∧ s.bestQ < range.quality then
          { t with bestLanguage := range.tag.language, bestQ := range.quality }
        else t := by
    simp [parserParseHttpLanguageCommit, QNumber.notEqual, QNumber.less, QNumber.ofNat, hclamp,
      h.language, h.bestQ]
  rw [hcommit]
  split_ifs with hbetter
  · exact hbest.concat_of_lt hbetter.1 hbetter.2
  · rw [h.bestLanguage, h.bestQ]
    refine hbest.concat_of_not ?_
    by_cases hlanguage : range.tag.language = 0
    · exact .inl hlanguage
    · exact .inr (not_lt.mp fun hlt => hbetter ⟨hlanguage, hlt⟩)

/-- A comma commits the range in front of it. -/
theorem AfterRange.comma {range : LanguageRange} {t : LanguageParser ℚ} (h : AfterRange s range t) :
    parserParseHttpLanguageStep t 44
      = some { parserParseHttpLanguageCommit t range.q with state := .waitLanguageBegin } := by
  rcases h.state with ⟨hstate, hq⟩ | hstate
  · rcases hstate with hstate | hstate <;>
      simp [parserParseHttpLanguageStep, hstate, hq, QNumber.ofNat]
  · simp [parserParseHttpLanguageStep, hstate, h.q]

/-- Reading ranges keeps the best of them, up to the one that is not committed yet. -/
theorem ranges_parses {ranges : List LanguageRange} (hne : ranges ≠ [])
    (h : ∀ range ∈ ranges, range.WellFormed) {seen : List LanguageRange}
    (hstate : s.state = .waitLanguageBegin) (hbest : HoldsBest seen s.bestLanguage s.bestQ) :
    ∃ t, Parses (acceptLanguageBytes ranges) s t ∧ t.state ≠ .waitLanguageBegin ∧
      HoldsBest (seen ++ ranges) (parserParseHttpLanguageCommit t t.q).bestLanguage
        (parserParseHttpLanguageCommit t t.q).bestQ := by
  induction ranges generalizing s seen with
  | nil => exact absurd rfl hne
  | cons range ranges ih =>
    obtain ⟨t, hparses, ht⟩ := (h range List.mem_cons_self).parses hstate
    have hcommit := ht.commit hbest
    rcases ranges with _ | ⟨next, ranges⟩
    · refine ⟨t, by simpa [acceptLanguageBytes] using hparses, ?_, ?_⟩
      · rcases ht.state with ⟨hstate | hstate, -⟩ | hstate <;> simp [hstate]
      · rw [ht.q]
        exact hcommit
    · obtain ⟨u, hrest, hu, hbestu⟩ := ih (List.cons_ne_nil _ _)
        (fun other hother => h other (List.mem_cons_of_mem _ hother))
        (s := { parserParseHttpLanguageCommit t range.q with state := .waitLanguageBegin }) rfl
        hcommit
      refine ⟨u, ?_, hu, by simpa using hbestu⟩
      have hbytes : acceptLanguageBytes (range :: next :: ranges)
          = range.bytes ++ 44 :: acceptLanguageBytes (next :: ranges) := by
        simp [acceptLanguageBytes, List.intercalate]
      rw [hbytes]
      exact hparses.append (.cons ht.comma hrest)

end

/-- The parser returns the language of the first of the ranges with the greatest weight among those that
are a language the server has and whose weight is positive, and none if there is no such range, however
the value is split. -/
theorem parserParseHttpLanguage_best {ranges : List LanguageRange} (hne : ranges ≠ [])
    (h : ∀ range ∈ ranges, range.WellFormed) {value : ConstantValue}
    (hvalue : value.bytes = acceptLanguageBytes ranges) :
    ranges.filter LanguageRange.eligible = [] ∧ parserParseHttpLanguage ℚ value = 0 ∨
      ∃ best, FirstMax LanguageRange.quality (ranges.filter LanguageRange.eligible) best ∧
        parserParseHttpLanguage ℚ value = best.tag.language := by
  have hstart : HoldsBest [] (LanguageParser.start (Q := ℚ)).bestLanguage
      (LanguageParser.start (Q := ℚ)).bestQ :=
    .inl ⟨rfl, rfl, by simp [LanguageParser.start, QNumber.ofNat]⟩
  obtain ⟨t, hparses, hstate, hbest⟩ := ranges_parses hne h rfl hstart
  have hresult : parserParseHttpLanguage ℚ value
      = (parserParseHttpLanguageCommit t t.q).bestLanguage := by
    rw [ConstantValue.bytes] at hvalue
    rw [parserParseHttpLanguage, ← parserParseHttpLanguagePart_append, hvalue, hparses]
    exact if_pos hstate
  rw [hresult]
  rcases hbest with ⟨hnone, hlanguage, -⟩ | ⟨best, hbest, hlanguage, -⟩
  · exact .inl ⟨hnone, hlanguage⟩
  · exact .inr ⟨best, hbest, hlanguage⟩

/-- `de;q=0.5, EN ,en-GB`: German with half the weight, English, and a range with a subtag. -/
def englishRanges : List LanguageRange :=
  [⟨0, .words (ascii "de") [], some ⟨0, 0, 113, 0, 0, ⟨ascii "0", some (ascii "5")⟩⟩, 0⟩,
    ⟨1, .words (ascii "EN") [], none, 1⟩, ⟨0, .words (ascii "en") [ascii "GB"], none, 0⟩]

/-- The value is split inside its second range. -/
theorem parserParseHttpLanguage_best_english :
    ∃ best, FirstMax LanguageRange.quality (englishRanges.filter LanguageRange.eligible) best ∧
      parserParseHttpLanguage ℚ ⟨ascii "de;q=0.5, E", ascii "N ,en-GB"⟩ = best.tag.language := by
  have hwell : ∀ range ∈ englishRanges, range.WellFormed := by decide +kernel
  have hvalue : (⟨ascii "de;q=0.5, E", ascii "N ,en-GB"⟩ : ConstantValue).bytes
      = acceptLanguageBytes englishRanges := by decide +kernel
  refine (parserParseHttpLanguage_best (List.cons_ne_nil _ _) hwell hvalue).resolve_left ?_
  rintro ⟨hnone, -⟩
  exact absurd hnone (by decide +kernel)

end Twinkleshine
