import Mathlib.Algebra.Group.Int.Defs
import Mathlib.Algebra.Group.Nat.Defs
import Mathlib.Data.List.Basic
import Mathlib.Tactic.Common

/-!
# Conversion specifications of `printf`

A specification is what follows a percent sign: flags in any order, a width, a precision, a length
modifier and a conversion specifier. An asterisk takes the next argument, an `int`, for the width or the
precision. A negative width is a flag with a width, and a negative precision is none.

`Specification` is the text of one with its arguments, `Conversion` is what it means, and
`readConversion` reads the one from the other.
-/

namespace Library

/-! ## Flags -/

/-- Which flags were given. -/
structure PrintFlags where
  hash : Bool
  zero : Bool
  minus : Bool
  plus : Bool
  space : Bool
deriving DecidableEq, Repr

namespace PrintFlags

/-- No flags. -/
def none : PrintFlags := ⟨false, false, false, false, false⟩

/-- The flags with that of a character, if it stands for one. -/
def add (flags : PrintFlags) (c : UInt8) : Option PrintFlags :=
  if c = 35 then some { flags with hash := true }
  else if c = 48 then some { flags with zero := true }
  else if c = 45 then some { flags with minus := true }
  else if c = 32 then some { flags with space := true }
  else if c = 43 then some { flags with plus := true }
  else .none

/-- The flags with those of all the characters. -/
def addAll (flags : PrintFlags) (cs : List UInt8) : PrintFlags :=
  cs.foldl (fun flags c => (flags.add c).getD flags) flags

end PrintFlags

/-- A character that stands for a flag. -/
def isFlag (c : UInt8) : Bool := c == 35 || c == 48 || c == 45 || c == 32 || c == 43

theorem PrintFlags.add_isSome (flags : PrintFlags) (c : UInt8) :
    (flags.add c).isSome = isFlag c := by
  unfold add isFlag
  split_ifs <;> simp_all

/-! ## Meaning -/

inductive LengthModifier where
  | none
  | hh
  | h
  | l
  | ll
  | j
  | z
  | t
  | L
deriving DecidableEq, Repr

/-- What a specification means. -/
structure Conversion where
  flags : PrintFlags
  /-- The minimal width; one that is not given is zero -/
  width : ℕ
  precision : Option ℕ
  length : LengthModifier
  specifier : UInt8
deriving DecidableEq, Repr

/-- A decimal digit. -/
def isDigit (c : UInt8) : Bool := 48 ≤ c && c ≤ 57

/-- The number that digits stand for. -/
def digitsValue (digits : List UInt8) : ℕ := digits.foldl (fun n c => 10 * n + (c.toNat - 48)) 0

/-- A width with the flag that a negative one stands for. -/
def starWidth (flags : PrintFlags) (value : ℤ) : PrintFlags × ℕ :=
  if value < 0 then ({ flags with minus := true }, (-value).toNat) else (flags, value.toNat)

/-- A precision, unless it is negative. -/
def starPrecision (value : ℤ) : Option ℕ := if value < 0 then none else some value.toNat

/-! ## Reading -/

/-- The flags in front. -/
def readFlags (flags : PrintFlags) : List UInt8 → PrintFlags × List UInt8
  | [] => (flags, [])
  | c :: format =>
    match flags.add c with
    | none => (flags, c :: format)
    | some flags => readFlags flags format

/-- The length modifier in front. -/
def readLength : List UInt8 → LengthModifier × List UInt8
  | 104 :: 104 :: format => (.hh, format)
  | 104 :: format => (.h, format)
  | 108 :: 108 :: format => (.ll, format)
  | 108 :: format => (.l, format)
  | 106 :: format => (.j, format)
  | 122 :: format => (.z, format)
  | 116 :: format => (.t, format)
  | 76 :: format => (.L, format)
  | format => (.none, format)

/-- The width in front. -/
def readWidth (flags : PrintFlags) (format : List UInt8) (args : List ℤ) :
    Option (PrintFlags × ℕ × List UInt8 × List ℤ) :=
  match format, args with
  | 42 :: _, [] => none
  | 42 :: format, value :: args =>
    let (flags, width) := starWidth flags value
    some (flags, width, format, args)
  | format, args =>
    some (flags, digitsValue (format.takeWhile isDigit), format.dropWhile isDigit, args)

/-- The precision in front. -/
def readPrecision (format : List UInt8) (args : List ℤ) :
    Option (Option ℕ × List UInt8 × List ℤ) :=
  match format, args with
  | 46 :: 42 :: _, [] => none
  | 46 :: 42 :: format, value :: args => some (starPrecision value, format, args)
  | 46 :: format, args =>
    some (some (digitsValue (format.takeWhile isDigit)), format.dropWhile isDigit, args)
  | format, args => some (none, format, args)

/-- What the specification in front of a format means, and what is left of the format and of the
arguments. -/
def readConversion (format : List UInt8) (args : List ℤ) :
    Option (Conversion × List UInt8 × List ℤ) :=
  let (flags, format) := readFlags .none format
  (readWidth flags format args).bind fun (flags, width, format, args) =>
  (readPrecision format args).bind fun (precision, format, args) =>
  let (length, format) := readLength format
  match format with
  | [] => none
  | specifier :: format => some (⟨flags, width, precision, length, specifier⟩, format, args)

/-- `%-5.3ld`, and `%-*.*ld` with a negative width. -/
example :
    readConversion [45, 53, 46, 51, 108, 100] [] = some (⟨⟨false, false, true, false, false⟩, 5, some 3,
        .l, 100⟩, [], []) ∧
      readConversion [45, 42, 46, 42, 108, 100] [-5, 3] = some (⟨⟨false, false, true, false, false⟩, 5,
        some 3, .l, 100⟩, [], []) := by decide

/-! ## Texts -/

/-- A number that is written out, or an asterisk with its argument. -/
inductive PrintAmount where
  | number (digits : List UInt8)
  | star (value : ℤ)
deriving DecidableEq, Repr

namespace PrintAmount

def text : PrintAmount → List UInt8
  | number digits => digits
  | star _ => [42]

def args : PrintAmount → List ℤ
  | number _ => []
  | star value => [value]

/-- A number has digits, and an argument is an `int`. -/
def WellFormed : PrintAmount → Prop
  | number digits => digits ≠ [] ∧ digits.all isDigit = true
  | star value => -2 ^ 31 ≤ value ∧ value < 2 ^ 31

end PrintAmount

/-- What a width is written as. -/
inductive WidthText where
  | absent
  | given (amount : PrintAmount)
deriving DecidableEq, Repr

/-- What a precision is written as; it may be a lone point. -/
inductive PrecisionText where
  | absent
  | point
  | given (amount : PrintAmount)
deriving DecidableEq, Repr

def WidthText.text : WidthText → List UInt8
  | absent => []
  | given amount => amount.text

def WidthText.args : WidthText → List ℤ
  | absent => []
  | given amount => amount.args

def PrecisionText.text : PrecisionText → List UInt8
  | absent => []
  | point => [46]
  | given amount => 46 :: amount.text

def PrecisionText.args : PrecisionText → List ℤ
  | absent | point => []
  | given amount => amount.args

/-- A width does not begin with a zero, which is a flag. -/
def WidthText.WellFormed : WidthText → Prop
  | absent => True
  | given amount => amount.WellFormed ∧ amount.text.head? ≠ some 48

def PrecisionText.WellFormed : PrecisionText → Prop
  | absent | point => True
  | given amount => amount.WellFormed

def LengthModifier.text : LengthModifier → List UInt8
  | none => []
  | hh => [104, 104]
  | h => [104]
  | l => [108]
  | ll => [108, 108]
  | j => [106]
  | z => [122]
  | t => [116]
  | L => [76]

/-- A character that may stand at the end of a specification. -/
def isSpecifier (c : UInt8) : Bool :=
  [99, 115, 100, 105, 111, 120, 88, 117, 102, 70, 101, 69, 97, 65, 103, 71, 110, 112].contains c

/-- The text of a specification, with the arguments of its asterisks. -/
structure Specification where
  flags : List UInt8
  width : WidthText
  precision : PrecisionText
  length : LengthModifier
  specifier : UInt8
deriving DecidableEq, Repr

namespace Specification

def text (d : Specification) : List UInt8 :=
  d.flags ++ d.width.text ++ d.precision.text ++ d.length.text ++ [d.specifier]

def args (d : Specification) : List ℤ := d.width.args ++ d.precision.args

structure WellFormed (d : Specification) : Prop where
  flags : d.flags.all isFlag = true
  width : d.width.WellFormed
  precision : d.precision.WellFormed
  specifier : isSpecifier d.specifier = true

end Specification

/-- The flags and the width a width stands for. -/
def WidthText.meaning (flags : PrintFlags) : WidthText → PrintFlags × ℕ
  | absent => (flags, 0)
  | given (.number digits) => (flags, digitsValue digits)
  | given (.star value) => starWidth flags value

def PrecisionText.meaning : PrecisionText → Option ℕ
  | absent => none
  | point => some 0
  | given (.number digits) => some (digitsValue digits)
  | given (.star value) => starPrecision value

def Specification.meaning (d : Specification) : Conversion :=
  let (flags, width) := d.width.meaning (PrintFlags.none.addAll d.flags)
  ⟨flags, width, d.precision.meaning, d.length, d.specifier⟩

/-! ## A text is read as what it means -/

theorem isFlag_iff {c : UInt8} : isFlag c = true ↔ c = 35 ∨ c = 48 ∨ c = 45 ∨ c = 32 ∨ c = 43 := by
  simp [isFlag, or_assoc]

/-- Specifiers are neither flags nor digits, and begin no other part of a specification. -/
theorem isSpecifier_apart {c : UInt8} (h : isSpecifier c = true) :
    isFlag c = false ∧ isDigit c = false ∧ c ≠ 42 ∧ c ≠ 46 ∧ c ∉ [104, 108, 106, 122, 116, 76] := by
  simp only [isSpecifier, List.contains_iff_mem, List.mem_cons, List.not_mem_nil, or_false] at h
  rcases h with rfl | rfl | rfl | rfl | rfl | rfl | rfl | rfl | rfl | rfl | rfl | rfl | rfl | rfl | rfl |
    rfl | rfl | rfl <;> decide

/-- A digit is no flag, unless it is zero. -/
theorem isFlag_digit {c : UInt8} (h : isDigit c = true) (hne : c ≠ 48) : isFlag c = false := by
  rw [← Bool.not_eq_true, isFlag_iff]
  rintro (rfl | rfl | rfl | rfl | rfl) <;> first | exact hne rfl | exact absurd h (by decide)

theorem ne_of_isDigit {c : UInt8} (h : isDigit c = true) : c ≠ 42 ∧ c ≠ 46 := by
  constructor <;> rintro rfl <;> exact absurd h (by decide)

section

variable {rest : List UInt8} {specifier : UInt8}

/-- What stands behind a width and a precision. -/
theorem head_length (length : LengthModifier) (h : isSpecifier specifier = true) :
    ∀ c ∈ (length.text ++ specifier :: rest).head?,
      isFlag c = false ∧ isDigit c = false ∧ c ≠ 42 ∧ c ≠ 46 := by
  obtain ⟨hflag, hdigit, hstar, hpoint, -⟩ := isSpecifier_apart h
  intro c hc
  cases length <;> cases hc <;> first | exact ⟨hflag, hdigit, hstar, hpoint⟩ | decide

/-- What stands behind a width. -/
theorem head_precision (precision : PrecisionText) (length : LengthModifier)
    (h : isSpecifier specifier = true) :
    ∀ c ∈ (precision.text ++ (length.text ++ specifier :: rest)).head?,
      isFlag c = false ∧ isDigit c = false ∧ c ≠ 42 := by
  intro c hc
  cases precision with
  | absent =>
    obtain ⟨hflag, hdigit, hstar, -⟩ := head_length length h c hc
    exact ⟨hflag, hdigit, hstar⟩
  | point =>
    cases hc
    decide
  | given amount =>
    cases hc
    decide

/-- What stands behind the flags. -/
theorem head_width (rest : List UInt8) {width : WidthText} (hwidth : width.WellFormed)
    (precision : PrecisionText) (length : LengthModifier) (h : isSpecifier specifier = true) :
    ∀ c ∈ (width.text ++ (precision.text ++ (length.text ++ specifier :: rest))).head?,
      isFlag c = false := by
  intro c hc
  cases width with
  | absent => exact (head_precision precision length h c hc).1
  | given amount =>
    cases amount with
    | star value =>
      cases hc
      decide
    | number digits =>
      obtain ⟨⟨hne, hdigits⟩, hzero⟩ := hwidth
      obtain ⟨d, digits, rfl⟩ := List.exists_cons_of_ne_nil hne
      cases hc
      refine isFlag_digit (List.all_eq_true.mp hdigits _ List.mem_cons_self) ?_
      rintro rfl
      exact hzero rfl

end

section

variable {flags : PrintFlags} {format tail : List UInt8} {args : List ℤ}

theorem PrintFlags.add_eq_none {c : UInt8} (h : isFlag c = false) : flags.add c = .none := by
  rw [← PrintFlags.add_isSome flags] at h
  exact Option.not_isSome_iff_eq_none.mp (by rw [h]; exact Bool.false_ne_true)

theorem PrintFlags.add_eq_some {c : UInt8} (h : isFlag c = true) :
    flags.add c = some (flags.addAll [c]) := by
  obtain ⟨added, hadded⟩ := Option.isSome_iff_exists.mp ((flags.add_isSome c).trans h)
  rw [PrintFlags.addAll, List.foldl_cons, List.foldl_nil, hadded, Option.getD_some]

theorem PrintFlags.addAll_cons (flags : PrintFlags) (c : UInt8) (cs : List UInt8) :
    flags.addAll (c :: cs) = (flags.addAll [c]).addAll cs := rfl

/-- A minus sign is among the flags where it was given. -/
theorem PrintFlags.minus_addAll (flags : PrintFlags) (cs : List UInt8) :
    (flags.addAll cs).minus = true ↔ flags.minus = true ∨ 45 ∈ cs := by
  induction cs generalizing flags with
  | nil => simp [PrintFlags.addAll]
  | cons c cs ih =>
    have hone : (flags.addAll [c]).minus = true ↔ flags.minus = true ∨ 45 = c := by
      show ((flags.add c).getD flags).minus = true ↔ _
      rw [eq_comm (a := 45)]
      unfold PrintFlags.add
      split_ifs <;> simp_all
    rw [PrintFlags.addAll_cons, ih, hone, List.mem_cons, or_assoc]

theorem readFlags_of_head (h : ∀ c ∈ tail.head?, isFlag c = false) :
    readFlags flags tail = (flags, tail) := by
  cases tail with
  | nil => rfl
  | cons c tail => rw [readFlags, PrintFlags.add_eq_none (h c rfl)]

theorem readFlags_append {cs : List UInt8} (hcs : cs.all isFlag = true)
    (h : ∀ c ∈ tail.head?, isFlag c = false) :
    readFlags flags (cs ++ tail) = (flags.addAll cs, tail) := by
  induction cs generalizing flags with
  | nil => exact readFlags_of_head h
  | cons c cs ih =>
    rw [List.all_cons, Bool.and_eq_true] at hcs
    rw [List.cons_append, readFlags, PrintFlags.add_eq_some hcs.1]
    exact ih hcs.2

theorem span_digits {digits : List UInt8} (hdigits : digits.all isDigit = true)
    (h : ∀ c ∈ tail.head?, isDigit c = false) :
    (digits ++ tail).takeWhile isDigit = digits ∧ (digits ++ tail).dropWhile isDigit = tail := by
  have hall := List.all_eq_true.mp hdigits
  have htail : tail.takeWhile isDigit = [] ∧ tail.dropWhile isDigit = tail := by
    cases tail with
    | nil => exact ⟨rfl, rfl⟩
    | cons c tail =>
      have hc : ¬ isDigit c = true := by
        rw [h c rfl]
        exact Bool.false_ne_true
      exact ⟨List.takeWhile_cons_of_neg hc, List.dropWhile_cons_of_neg hc⟩
  rw [List.takeWhile_append_of_pos hall, List.dropWhile_append_of_pos hall, htail.1, htail.2,
    List.append_nil]
  exact ⟨rfl, rfl⟩

theorem readWidth_of_head (h : ∀ c ∈ format.head?, c ≠ 42) :
    readWidth flags format args
      = some (flags, digitsValue (format.takeWhile isDigit), format.dropWhile isDigit, args) := by
  unfold readWidth
  split
  · exact absurd rfl (h 42 rfl)
  · exact absurd rfl (h 42 rfl)
  · rfl

theorem readWidth_text {width : WidthText} (hwidth : width.WellFormed)
    (h : ∀ c ∈ tail.head?, isFlag c = false ∧ isDigit c = false ∧ c ≠ 42) :
    readWidth flags (width.text ++ tail) (width.args ++ args)
      = some ((width.meaning flags).1, (width.meaning flags).2, tail, args) := by
  cases width with
  | absent =>
    obtain ⟨htake, hdrop⟩ := span_digits (show ([] : List UInt8).all isDigit = true from rfl)
      fun c hc => (h c hc).2.1
    rw [List.nil_append] at htake hdrop
    show readWidth flags tail args = _
    rw [readWidth_of_head fun c hc => (h c hc).2.2, htake, hdrop]
    rfl
  | given amount =>
    cases amount with
    | star value => rfl
    | number digits =>
      obtain ⟨⟨hne, hdigits⟩, -⟩ := hwidth
      obtain ⟨htake, hdrop⟩ := span_digits hdigits fun c hc => (h c hc).2.1
      have hhead : ∀ c ∈ (digits ++ tail).head?, c ≠ 42 := by
        obtain ⟨d, digits, rfl⟩ := List.exists_cons_of_ne_nil hne
        intro c hc
        cases hc
        exact (ne_of_isDigit (List.all_eq_true.mp hdigits _ List.mem_cons_self)).1
      show readWidth flags (digits ++ tail) args = _
      rw [readWidth_of_head hhead, htake, hdrop]
      rfl

theorem readPrecision_of_head (h : ∀ c ∈ format.head?, c ≠ 46) :
    readPrecision format args = some (none, format, args) := by
  unfold readPrecision
  split
  · exact absurd rfl (h 46 rfl)
  · exact absurd rfl (h 46 rfl)
  · exact absurd rfl (h 46 rfl)
  · rfl

theorem readPrecision_point (h : ∀ c ∈ format.head?, c ≠ 42) :
    readPrecision (46 :: format) args
      = some (some (digitsValue (format.takeWhile isDigit)), format.dropWhile isDigit, args) := by
  unfold readPrecision
  split
  · exact absurd rfl (h 42 (by simp_all))
  · exact absurd rfl (h 42 (by simp_all))
  · simp_all
  · simp_all

theorem readPrecision_text {precision : PrecisionText} (hprecision : precision.WellFormed)
    (h : ∀ c ∈ tail.head?, isFlag c = false ∧ isDigit c = false ∧ c ≠ 42 ∧ c ≠ 46) :
    readPrecision (precision.text ++ tail) (precision.args ++ args)
      = some (precision.meaning, tail, args) := by
  cases precision with
  | absent => exact readPrecision_of_head fun c hc => (h c hc).2.2.2
  | point =>
    obtain ⟨htake, hdrop⟩ := span_digits (show ([] : List UInt8).all isDigit = true from rfl)
      fun c hc => (h c hc).2.1
    rw [List.nil_append] at htake hdrop
    show readPrecision (46 :: tail) args = _
    rw [readPrecision_point fun c hc => (h c hc).2.2.1, htake, hdrop]
    rfl
  | given amount =>
    cases amount with
    | star value => rfl
    | number digits =>
      obtain ⟨hne, hdigits⟩ := hprecision
      obtain ⟨htake, hdrop⟩ := span_digits hdigits fun c hc => (h c hc).2.1
      have hhead : ∀ c ∈ (digits ++ tail).head?, c ≠ 42 := by
        obtain ⟨d, digits, rfl⟩ := List.exists_cons_of_ne_nil hne
        intro c hc
        cases hc
        exact (ne_of_isDigit (List.all_eq_true.mp hdigits _ List.mem_cons_self)).1
      show readPrecision (46 :: (digits ++ tail)) args = _
      rw [readPrecision_point hhead, htake, hdrop]
      rfl

theorem readLength_text (length : LengthModifier) {specifier : UInt8}
    (h : isSpecifier specifier = true) (rest : List UInt8) :
    readLength (length.text ++ specifier :: rest) = (length, specifier :: rest) := by
  obtain ⟨-, -, -, -, hapart⟩ := isSpecifier_apart h
  simp only [List.mem_cons, List.not_mem_nil, or_false, not_or] at hapart
  cases length <;> simp only [LengthModifier.text, List.nil_append, List.cons_append] <;>
    unfold readLength <;> split <;> grind

theorem Specification.text_append (d : Specification) (rest : List UInt8) :
    d.text ++ rest
      = d.flags ++ (d.width.text ++ (d.precision.text ++ (d.length.text ++ d.specifier :: rest))) := by
  simp only [Specification.text, List.append_assoc, List.cons_append, List.nil_append]

/-- A specification is read as what it means, up to its end. -/
theorem readConversion_text {d : Specification} (h : d.WellFormed) (rest : List UInt8)
    (args : List ℤ) :
    readConversion (d.text ++ rest) (d.args ++ args) = some (d.meaning, rest, args) := by
  rw [readConversion, d.text_append,
    readFlags_append h.flags (head_width rest h.width d.precision d.length h.specifier)]
  dsimp only
  rw [Specification.args, List.append_assoc,
    readWidth_text h.width (head_precision d.precision d.length h.specifier), Option.bind_some]
  dsimp only
  rw [readPrecision_text h.precision (head_length d.length h.specifier), Option.bind_some]
  dsimp only
  rw [readLength_text d.length h.specifier]
  rfl

end

end Library
