import Twinkleshine.Library.Printf
import Twinkleshine.Strtol

/-!
# Directives of `string_vprint_append`

Reference: `string_internal_vprint_append` in `commonlib/source/string.c`.

A directive is parsed, its width and precision become numbers, and a directive that takes both as
arguments is handed to `sprintf`. This models one directive, from behind its percent sign to the call; the
room that is reserved and the value that is printed are left out.

A width of zero stands for none and is printed anyway; a precision of `precisionInvalid` stands for none.
A lone point leaves the precision invalid, a negative width leaves no flag in the copy, and `L` is taken
for a length of two characters.
-/

namespace Twinkleshine

open Library

/-! ## Parsing -/

/-- Why a directive is not printed. -/
inductive DirectiveFault where
  /-- `SOFT_RET()` -/
  | failed
  /-- What C does not define: an argument that is not there, or the negation of `INT_MIN`. -/
  | undefined
deriving DecidableEq, Repr

/-- `Length` -/
inductive Length where
  | none
  | shortShort
  | short
  | long
  | longLong
  | max
  | size
  | ptrdiff
  | longDouble
deriving DecidableEq, Repr

/-- `precision_invalid` -/
def precisionInvalid : ℕ := uintModulus - 1

/-- Parse flags: the flags, those that are copied, and the format behind them. -/
def parseFlags (flags : PrintFlags) : List UInt8 → PrintFlags × List UInt8 × List UInt8
  | [] => (flags, [], [])
  | c :: format =>
    match flags.add c with
    | none => (flags, [], c :: format)
    | some newFlags =>
      let (parsed, formatCopy, rest) := parseFlags newFlags format
      (parsed, if newFlags ≠ flags then c :: formatCopy else formatCopy, rest)

/-- Parse width: the flags, the width, the format and the arguments behind it. -/
def parseWidth (flags : PrintFlags) (format : List UInt8) (args : List ℤ) :
    Except DirectiveFault (PrintFlags × ℕ × List UInt8 × List ℤ) :=
  if format.headD 0 = 42 then
    match args with
    | [] => .error .undefined
    | signedWidth :: args =>
      if signedWidth ≥ 0 then .ok (flags, signedWidth.toNat, format.tail, args)
      else if signedWidth = -2 ^ 31 then .error .undefined
      else .ok ({ flags with minus := true }, (-signedWidth).toNat, format.tail, args)
  else if isDecimal (format.headD 0) then
    .ok (flags, (strtoul format).1 % uintModulus, (strtoul format).2, args)
  else .ok (flags, 0, format, args)

/-- Parse precision: the precision, the format and the arguments behind it. -/
def parsePrecision (format : List UInt8) (args : List ℤ) :
    Except DirectiveFault (ℕ × List UInt8 × List ℤ) :=
  if format.headD 0 = 46 then
    let format := format.tail
    if format.headD 0 = 42 then
      match args with
      | [] => .error .undefined
      | signedPrecision :: args =>
        .ok (if signedPrecision ≥ 0 then signedPrecision.toNat else precisionInvalid, format.tail, args)
    else if isDecimal (format.headD 0) then
      .ok ((strtoul format).1 % uintModulus, (strtoul format).2, args)
    else .ok (precisionInvalid, format, args)
  else .ok (precisionInvalid, format, args)

/-- Parse length: the length, how many characters are copied for it. -/
def parseLength (format : List UInt8) : Length × ℕ :=
  match format.headD 0 with
  | 104 => if format.tail.headD 0 = 104 then (.shortShort, 2) else (.short, 1)
  | 108 => if format.tail.headD 0 = 108 then (.longLong, 2) else (.long, 1)
  | 106 => (.max, 1)
  | 122 => (.size, 1)
  | 116 => (.ptrdiff, 1)
  | 76 => (.longLong, 2)
  | _ => (.none, 0)

/-! ## Printing -/

/-- `d`, `i`, `o`, `x`, `X`, `u` -/
def integerSpecifiers : List UInt8 := [100, 105, 111, 120, 88, 117]

/-- `f`, `e`, `E`, `g`, `G`, `F`, `a`, `A` -/
def floatSpecifiers : List UInt8 := [102, 101, 69, 103, 71, 70, 97, 65]

/-- The lengths of integers: `ENABLE_LONG_LONG` is off, `ENABLE_EXTENSIONS` is on. -/
def integerLengths : List Length := [.none, .short, .long, .shortShort, .max, .size, .ptrdiff]

/-- The branches that print: the specifier that is handed to `sprintf`, `none` where nothing is. -/
def printedSpecifier (specifier : UInt8) (length : Length) : Except DirectiveFault (Option UInt8) :=
  if specifier = 99 ∧ length = .none then .ok (some specifier)
  else if specifier = 99 ∧ length = .long then .ok (some 115)
  else if specifier = 115 ∧ length = .none then .ok (some specifier)
  else if specifier = 115 ∧ length = .long then .ok (some specifier)
  else if specifier ∈ integerSpecifiers ∧ length ∈ integerLengths then .ok (some specifier)
  else if specifier ∈ floatSpecifiers ∧ (length = .none ∨ length = .longDouble) then
    .ok (some specifier)
  else if specifier = 110 ∧ length ∈ integerLengths then .ok none
  else if specifier = 112 ∧ length = .none then .ok (some 115)
  else .error .failed

/-- A directive that was parsed, and what `sprintf` is called with. -/
structure Directive where
  flags : PrintFlags
  width : ℕ
  precision : ℕ
  length : Length
  /-- `format_copy`, `none` where `sprintf` is not called -/
  formatCopy : Option (List UInt8)
  /-- Where the next directive is looked for -/
  format : List UInt8
  /-- The arguments from the value on -/
  args : List ℤ
deriving DecidableEq, Repr

/-- A directive, from behind its percent sign. -/
def vprintDirective (format : List UInt8) (args : List ℤ) : Except DirectiveFault Directive :=
  let (flags, flagsCopy, format) := parseFlags .none format
  match parseWidth flags format args with
  | .error fault => .error fault
  | .ok (flags, width, format, args) =>
    match parsePrecision format args with
    | .error fault => .error fault
    | .ok (precision, format, args) =>
      let precisionCopy : List UInt8 := if precision ≠ precisionInvalid then [46, 42] else []
      let (length, copied) := parseLength format
      let lengthCopy := format.take copied
      let format := format.drop copied
      match printedSpecifier (format.headD 0) length with
      | .error fault => .error fault
      | .ok printed =>
        .ok { flags, width, precision, length
              formatCopy := printed.map fun specifier =>
                37 :: flagsCopy ++ [42] ++ precisionCopy ++ lengthCopy ++ [specifier]
              format := format.tail
              args }

/-- The arguments in front of the value. -/
def Directive.sprintfArgs (directive : Directive) : List ℕ :=
  if directive.precision ≠ precisionInvalid then [directive.width, directive.precision]
  else [directive.width]

/-- `va_arg(va, int)` of an `unsigned int`, which is defined where both types have the value -/
def intArg (value : ℕ) : Option ℤ := if value < 2 ^ 31 then some value else none

/-- What the rebuilt directive and its arguments mean to `sprintf`. -/
def Directive.meaning (directive : Directive) : Option Conversion :=
  match directive.formatCopy with
  | some (37 :: format) =>
    (directive.sprintfArgs.mapM intArg).bind fun args =>
    match readConversion format args with
    | some (conversion, [], []) => some conversion
    | _ => none
  | _ => none

/-! ## Room for the copy -/

/-- How many flags were given. -/
def flagsGiven (flags : PrintFlags) : ℕ :=
  flags.hash.toNat + flags.zero.toNat + flags.minus.toNat + flags.plus.toNat + flags.space.toNat

theorem flagsGiven_add {flags newFlags : PrintFlags} {c : UInt8} (h : flags.add c = some newFlags)
    (hnew : newFlags ≠ flags) : flagsGiven newFlags = flagsGiven flags + 1 := by
  obtain ⟨hash, zero, minus, plus, space⟩ := flags
  unfold PrintFlags.add at h
  split_ifs at h <;> cases h <;> revert hnew <;> revert hash zero minus plus space <;> decide

/-- A flag is copied when it is given for the first time. -/
theorem parseFlags_length (flags : PrintFlags) (format : List UInt8) :
    flagsGiven (parseFlags flags format).1
      = flagsGiven flags + (parseFlags flags format).2.1.length := by
  induction format generalizing flags with
  | nil => rfl
  | cons c format ih =>
    unfold parseFlags
    cases hadd : flags.add c with
    | none => rfl
    | some newFlags =>
      show flagsGiven (parseFlags newFlags format).1 = flagsGiven flags + (if newFlags ≠ flags then
        c :: (parseFlags newFlags format).2.1 else (parseFlags newFlags format).2.1).length
      rw [ih]
      split_ifs with hnew
      · rw [flagsGiven_add hadd hnew, List.length_cons]
        omega
      · rw [not_not.mp hnew]

theorem parseFlags_copied (flags : PrintFlags) (format : List UInt8) :
    (parseFlags flags format).2.1.length ≤ 5 := by
  have hlength := parseFlags_length flags format
  have hfive : ∀ flags : PrintFlags, flagsGiven flags ≤ 5 := by
    rintro ⟨hash, zero, minus, plus, space⟩
    revert hash zero minus plus space
    decide
  have := hfive (parseFlags flags format).1
  omega

theorem parseLength_copied (format : List UInt8) : (parseLength format).2 ≤ 2 := by
  unfold parseLength
  split <;> (try split_ifs) <;> decide

/-- The copy and its terminator fit into `format_copy`, whatever the directive. -/
theorem formatCopy_fits {format formatCopy : List UInt8} {args : List ℤ} {directive : Directive}
    (h : vprintDirective format args = .ok directive) (hcopy : directive.formatCopy = some formatCopy) :
    formatCopy.length + 1 ≤ 16 := by
  unfold vprintDirective at h
  have hflags := parseFlags_copied .none format
  generalize parseFlags .none format = flags at h hflags
  obtain ⟨flags, flagsCopy, format⟩ := flags
  dsimp only at h hflags
  split at h
  · exact absurd h (by simp)
  split at h
  · exact absurd h (by simp)
  rename_i width format args _ _ precision format args _
  have hlength := parseLength_copied format
  generalize parseLength format = length at h hlength
  obtain ⟨length, copied⟩ := length
  dsimp only at h hlength
  split at h
  · exact absurd h (by simp)
  rename_i printed _
  cases h
  obtain ⟨specifier, -, rfl⟩ := Option.map_eq_some_iff.mp hcopy
  have hprecision :
      (if precision ≠ precisionInvalid then ([46, 42] : List UInt8) else []).length ≤ 2 := by
    split_ifs <;> decide
  have htake := List.length_take_le copied format
  simp only [List.length_append, List.length_cons, List.length_nil]
  omega

/-! ## What is parsed -/

section

variable {flags : PrintFlags} {tail : List UInt8} {args : List ℤ}

/-- The flags that are copied stand for all of them. -/
theorem parseFlags_append (flags : PrintFlags) {cs : List UInt8} (hcs : cs.all isFlag = true)
    (h : ∀ c ∈ tail.head?, isFlag c = false) :
    ∃ kept : List UInt8, kept.all isFlag = true ∧ flags.addAll kept = flags.addAll cs ∧
      parseFlags flags (cs ++ tail) = (flags.addAll cs, kept, tail) := by
  induction cs generalizing flags with
  | nil =>
    refine ⟨[], rfl, rfl, ?_⟩
    cases tail with
    | nil => rfl
    | cons c tail =>
      rw [List.nil_append, parseFlags, PrintFlags.add_eq_none (h c rfl)]
      rfl
  | cons c cs ih =>
    rw [List.all_cons, Bool.and_eq_true] at hcs
    obtain ⟨kept, hkept, hsame, hparse⟩ := ih (flags.addAll [c]) hcs.2
    rw [List.cons_append, parseFlags, PrintFlags.add_eq_some hcs.1]
    dsimp only
    rw [hparse]
    by_cases hnew : flags.addAll [c] = flags
    · refine ⟨kept, hkept, ?_, ?_⟩
      · rw [PrintFlags.addAll_cons flags c cs, ← hsame, hnew]
      · rw [if_neg (not_not.mpr hnew)]
        rfl
    · refine ⟨c :: kept, ?_, ?_, ?_⟩
      · rw [List.all_cons, hcs.1, hkept]
        rfl
      · rw [PrintFlags.addAll_cons flags c cs, PrintFlags.addAll_cons flags c kept, hsame]
      · rw [if_pos hnew]
        rfl

/-- The width a directive is given. -/
def widthParsed : WidthText → ℕ
  | .absent => 0
  | .given (.number digits) => min (digitsNumber digits) (sizeModulus - 1) % uintModulus
  | .given (.star value) => value.natAbs

/-- The precision a directive is given. -/
def precisionParsed : PrecisionText → ℕ
  | .absent | .point => precisionInvalid
  | .given (.number digits) => min (digitsNumber digits) (sizeModulus - 1) % uintModulus
  | .given (.star value) => if value ≥ 0 then value.toNat else precisionInvalid

theorem headD_digit {digits : List UInt8} (hne : digits ≠ []) (hdigits : digits.all isDigit = true) :
    isDigit ((digits ++ tail).headD 0) = true := by
  obtain ⟨c, digits, rfl⟩ := List.exists_cons_of_ne_nil hne
  exact List.all_eq_true.mp hdigits c List.mem_cons_self

theorem headD_of_head {p : UInt8 → Prop} (hzero : p 0) (h : ∀ c ∈ tail.head?, p c) :
    p (tail.headD 0) := by
  cases tail with
  | nil => exact hzero
  | cons c tail => exact h c rfl

theorem parseWidth_digits {digits : List UInt8} (hne : digits ≠ [])
    (hdigits : digits.all isDigit = true) (h : ∀ c ∈ tail.head?, isDigit c = false) :
    parseWidth flags (digits ++ tail) args
      = .ok (flags, min (digitsNumber digits) (sizeModulus - 1) % uintModulus, tail, args) := by
  have hdigit : isDigit ((digits ++ tail).headD 0) = true := headD_digit hne hdigits
  rw [parseWidth.eq_def, if_neg (ne_of_isDigit hdigit).1, if_pos (show isDecimal _ = true from hdigit),
    strtoul_saturates hne hdigits h]

theorem parseWidth_of_head (h : ∀ c ∈ tail.head?, isDigit c = false ∧ c ≠ 42) :
    parseWidth flags tail args = .ok (flags, 0, tail, args) := by
  have hhead := headD_of_head (p := fun c => isDigit c = false ∧ c ≠ 42) (by decide) h
  rw [parseWidth.eq_def, if_neg hhead.2, if_neg]
  exact Bool.eq_false_iff.mp hhead.1

/-- A negative width is the flag and the width without its sign. -/
theorem parseWidth_star {value : ℤ} (hmin : value ≠ -2 ^ 31) :
    parseWidth flags (42 :: tail) (value :: args)
      = .ok ((starWidth flags value).1, value.natAbs, tail, args) := by
  show (if value ≥ 0 then _ else if value = -2 ^ 31 then _ else _) = _
  unfold starWidth
  by_cases hvalue : value ≥ 0
  · have hnat : value.toNat = value.natAbs := by omega
    rw [if_pos hvalue, if_neg (Int.not_lt.mpr hvalue), hnat]
    rfl
  · have hnat : (-value).toNat = value.natAbs := by omega
    rw [if_neg hvalue, if_neg hmin, if_pos (Int.not_le.mp hvalue), hnat]
    rfl

theorem parseWidth_text {width : WidthText} (hwidth : width.WellFormed)
    (hmin : width ≠ .given (.star (-2 ^ 31)))
    (h : ∀ c ∈ tail.head?, isFlag c = false ∧ isDigit c = false ∧ c ≠ 42) :
    parseWidth flags (width.text ++ tail) (width.args ++ args)
      = .ok ((width.meaning flags).1, widthParsed width, tail, args) := by
  cases width with
  | absent => exact parseWidth_of_head fun c hc => (h c hc).2
  | given amount =>
    cases amount with
    | number digits =>
      obtain ⟨⟨hne, hdigits⟩, -⟩ := hwidth
      exact parseWidth_digits hne hdigits fun c hc => (h c hc).2.1
    | star value =>
      refine parseWidth_star ?_
      rintro rfl
      exact hmin rfl

/-- The smallest width has no negation. -/
theorem parseWidth_min :
    parseWidth flags ((WidthText.given (.star (-2 ^ 31))).text ++ tail)
      ((WidthText.given (.star (-2 ^ 31))).args ++ args) = .error .undefined := rfl

theorem parsePrecision_text {precision : PrecisionText} (hprecision : precision.WellFormed)
    (h : ∀ c ∈ tail.head?, isFlag c = false ∧ isDigit c = false ∧ c ≠ 42 ∧ c ≠ 46) :
    parsePrecision (precision.text ++ tail) (precision.args ++ args)
      = .ok (precisionParsed precision, tail, args) := by
  have hhead := headD_of_head (p := fun c => isDigit c = false ∧ c ≠ 42 ∧ c ≠ 46) (by decide)
    fun c hc => (h c hc).2
  have hdecimal : ¬ isDecimal (tail.headD 0) = true := Bool.eq_false_iff.mp hhead.1
  cases precision with
  | absent =>
    show parsePrecision tail args = _
    rw [parsePrecision, if_neg hhead.2.2]
    rfl
  | point =>
    show (if tail.headD 0 = 42 then _ else if isDecimal (tail.headD 0) = true then _ else _) = _
    rw [if_neg hhead.2.1, if_neg hdecimal]
    rfl
  | given amount =>
    cases amount with
    | number digits =>
      obtain ⟨hne, hdigits⟩ := hprecision
      have hdigit : isDigit ((digits ++ tail).headD 0) = true := headD_digit hne hdigits
      show (if (digits ++ tail).headD 0 = 42 then _
        else if isDecimal ((digits ++ tail).headD 0) = true then
        Except.ok ((strtoul (digits ++ tail)).1 % uintModulus, (strtoul (digits ++ tail)).2, args)
        else _) = _
      rw [if_neg (ne_of_isDigit hdigit).1, if_pos (show isDecimal _ = true from hdigit),
        strtoul_saturates hne hdigits fun c hc => (h c hc).2.1]
      rfl
    | star value => rfl

/-- The length a directive is given, unless it is `L`. -/
def lengthParsed : LengthModifier → Length
  | .none => .none
  | .hh => .shortShort
  | .h => .short
  | .l => .long
  | .ll => .longLong
  | .j => .max
  | .z => .size
  | .t => .ptrdiff
  | .L => .longLong

theorem parseLength_text {length : LengthModifier} (hL : length ≠ .L) {specifier : UInt8}
    (h : isSpecifier specifier = true) (rest : List UInt8) :
    parseLength (length.text ++ specifier :: rest) = (lengthParsed length, length.text.length) := by
  obtain ⟨-, -, -, -, hapart⟩ := isSpecifier_apart h
  simp only [List.mem_cons, List.not_mem_nil, or_false, not_or] at hapart
  cases length with
  | none =>
    show parseLength (specifier :: rest) = (.none, 0)
    unfold parseLength
    simp only [List.headD_cons]
    split <;> simp_all
  | h => exact if_neg hapart.1
  | l => exact if_neg hapart.2.1
  | L => exact absurd rfl hL
  | _ => rfl

/-- The specifiers that are supported, with their lengths. -/
def supports (specifier : UInt8) (length : LengthModifier) : Bool :=
  if specifier = 99 ∨ specifier = 115 then length = .none ∨ length = .l
  else if specifier ∈ integerSpecifiers then length ≠ .ll ∧ length ≠ .L
  else if specifier ∈ floatSpecifiers then length = .none ∨ length = .L
  else false

/-- A wide character is printed as a string. -/
def specifierPrinted (specifier : UInt8) (length : LengthModifier) : UInt8 :=
  if specifier = 99 ∧ length = .l then 115 else specifier

theorem printedSpecifier_text {length : LengthModifier} (hL : length ≠ .L) {specifier : UInt8}
    (h : supports specifier length = true) :
    printedSpecifier specifier (lengthParsed length)
      = .ok (some (specifierPrinted specifier length)) := by
  unfold supports at h
  split_ifs at h with hchar hinteger hfloat
  · rcases hchar with rfl | rfl <;> cases length <;> first | rfl | exact absurd h (by decide)
  · simp only [integerSpecifiers, List.mem_cons, List.not_mem_nil, or_false] at hinteger
    rcases hinteger with rfl | rfl | rfl | rfl | rfl | rfl <;> cases length <;>
      first | rfl | exact absurd h (by decide)
  · simp only [floatSpecifiers, List.mem_cons, List.not_mem_nil, or_false] at hfloat
    have hlength : length = .none := (of_decide_eq_true h).resolve_right hL
    subst hlength
    rcases hfloat with rfl | rfl | rfl | rfl | rfl | rfl | rfl | rfl <;> rfl

/-- No branch prints what is taken for `long long`. -/
theorem printedSpecifier_longLong (specifier : UInt8) :
    printedSpecifier specifier .longLong = .error .failed := by
  simp [printedSpecifier, integerLengths]

/-! ## What is rebuilt -/

/-- The directive that is rebuilt from one with flags of which some are kept. -/
def rebuilt (d : Specification) (kept : List UInt8) : Specification where
  flags := kept
  width := .given (.star (widthParsed d.width))
  precision :=
    if precisionParsed d.precision ≠ precisionInvalid then .given (.star (precisionParsed d.precision))
    else .absent
  length := d.length
  specifier := specifierPrinted d.specifier d.length

variable {d : Specification}

theorem vprintDirective_text (args : List ℤ) (h : d.WellFormed)
    (hsupports : supports d.specifier d.length = true) (hL : d.length ≠ .L)
    (hmin : d.width ≠ .given (.star (-2 ^ 31))) (rest : List UInt8) :
    ∃ (kept : List UInt8) (directive : Directive), kept.all isFlag = true ∧
      PrintFlags.none.addAll kept = PrintFlags.none.addAll d.flags ∧
      vprintDirective (d.text ++ rest) (d.args ++ args) = .ok directive ∧
      directive.formatCopy = some (37 :: (rebuilt d kept).text) ∧ directive.width = widthParsed d.width ∧
      directive.precision = precisionParsed d.precision ∧ directive.format = rest ∧
      directive.args = args := by
  obtain ⟨kept, hkept, hsame, hflags⟩ := parseFlags_append .none h.flags
    (head_width rest h.width d.precision d.length h.specifier)
  refine ⟨kept, ⟨(d.width.meaning (PrintFlags.none.addAll d.flags)).1, widthParsed d.width,
    precisionParsed d.precision, lengthParsed d.length, some (37 :: (rebuilt d kept).text), rest, args⟩,
    hkept, hsame, ?_, rfl, rfl, rfl, rfl, rfl⟩
  rw [vprintDirective, d.text_append, hflags]
  dsimp only
  rw [Specification.args, List.append_assoc,
    parseWidth_text h.width hmin (head_precision d.precision d.length h.specifier)]
  dsimp only
  rw [parsePrecision_text h.precision (head_length d.length h.specifier)]
  dsimp only
  rw [parseLength_text hL h.specifier]
  dsimp only
  rw [List.drop_left, List.take_left, List.headD_cons, printedSpecifier_text hL hsupports]
  dsimp only
  rw [rebuilt, Specification.text]
  by_cases hprecision : precisionParsed d.precision ≠ precisionInvalid
  · rw [if_pos hprecision, if_pos hprecision]
    rfl
  · rw [if_neg hprecision, if_neg hprecision]
    rfl

theorem rebuilt_wellFormed {kept : List UInt8} (h : d.WellFormed) (hkept : kept.all isFlag = true)
    (hwidth : widthParsed d.width < 2 ^ 31)
    (hprecision : precisionParsed d.precision = precisionInvalid ∨ precisionParsed d.precision < 2 ^ 31) :
    (rebuilt d kept).WellFormed := by
  refine ⟨hkept, ⟨⟨by omega, by omega⟩, by rintro ⟨⟩⟩, ?_, ?_⟩
  · show PrecisionText.WellFormed (if _ then _ else _)
    split_ifs with hvalid
    · have := hprecision.resolve_left hvalid
      exact ⟨by omega, by omega⟩
    · trivial
  · show isSpecifier (if _ then _ else _) = true
    split_ifs
    · rfl
    · exact h.specifier

theorem rebuilt_meaning (kept : List UInt8) :
    (rebuilt d kept).meaning
      = { flags := PrintFlags.none.addAll kept
          width := widthParsed d.width
          precision :=
            if precisionParsed d.precision ≠ precisionInvalid then some (precisionParsed d.precision)
            else none
          length := d.length
          specifier := specifierPrinted d.specifier d.length } := by
  have hwidth : (rebuilt d kept).width.meaning (PrintFlags.none.addAll (rebuilt d kept).flags)
      = (PrintFlags.none.addAll kept, widthParsed d.width) := by
    show starWidth (PrintFlags.none.addAll kept) (widthParsed d.width : ℤ) = _
    rw [starWidth, if_neg (by omega), Int.toNat_natCast]
  have hprecision : starPrecision (precisionParsed d.precision : ℤ)
      = some (precisionParsed d.precision) := by
    rw [starPrecision, if_neg (by omega), Int.toNat_natCast]
  have hmeaning : (rebuilt d kept).precision.meaning
      = if precisionParsed d.precision ≠ precisionInvalid then some (precisionParsed d.precision)
        else none := by
    unfold rebuilt
    dsimp only
    split_ifs
    · exact hprecision
    · rfl
  rw [Specification.meaning, hwidth, hmeaning]
  rfl

/-- The numbers that `sprintf` reads as an `int` have to be in the range of one. -/
theorem meaning_rebuilt {kept : List UInt8} (h : d.WellFormed) (hkept : kept.all isFlag = true)
    {directive : Directive} (hcopy : directive.formatCopy = some (37 :: (rebuilt d kept).text))
    (hwidth : directive.width = widthParsed d.width)
    (hprecision : directive.precision = precisionParsed d.precision) :
    directive.meaning
      = if widthParsed d.width < 2 ^ 31 ∧ (precisionParsed d.precision = precisionInvalid ∨
          precisionParsed d.precision < 2 ^ 31) then some (rebuilt d kept).meaning
        else none := by
  have hargs : (directive.sprintfArgs.mapM intArg)
      = if widthParsed d.width < 2 ^ 31 ∧ (precisionParsed d.precision = precisionInvalid ∨
          precisionParsed d.precision < 2 ^ 31) then some (rebuilt d kept).args
        else none := by
    rw [Directive.sprintfArgs, hwidth, hprecision, Specification.args]
    unfold rebuilt intArg
    dsimp only
    by_cases hvalid : precisionParsed d.precision = precisionInvalid
    · by_cases hw : widthParsed d.width < 2 ^ 31 <;>
        simp [-Nat.reducePow, hvalid, hw, WidthText.args, PrecisionText.args, PrintAmount.args]
    · by_cases hw : widthParsed d.width < 2 ^ 31 <;>
        by_cases hp : precisionParsed d.precision < 2 ^ 31 <;>
          simp [-Nat.reducePow, hvalid, hw, hp, WidthText.args, PrecisionText.args, PrintAmount.args]
  rw [Directive.meaning, hcopy, hargs]
  split_ifs with hfits
  · have hread := readConversion_text (rebuilt_wellFormed h hkept hfits.1 hfits.2) [] []
    rw [List.append_nil, List.append_nil] at hread
    show (match readConversion (rebuilt d kept).text (rebuilt d kept).args with
      | some (conversion, [], []) => some conversion
      | _ => none) = _
    rw [hread]
  · rfl

end

/-! ## When the rebuilt directive means the same -/

/-- The rebuilt directive and its arguments mean what the directive means, and parsing goes on right
behind it. -/
def Rebuilds (d : Specification) (rest : List UInt8) (args : List ℤ) : Prop :=
  ∃ directive : Directive, vprintDirective (d.text ++ rest) (d.args ++ args) = .ok directive ∧
    directive.meaning = some d.meaning ∧ directive.format = rest ∧ directive.args = args

/-- A width that is written out is in the range of `int`; a negative argument comes with the flag that it
stands for, and has a negation. -/
def WidthPasses (flags : List UInt8) : WidthText → Prop
  | .absent => True
  | .given (.number digits) => digitsNumber digits < 2 ^ 31
  | .given (.star value) => 0 ≤ value ∨ 45 ∈ flags ∧ value ≠ -2 ^ 31

/-- A precision is not a lone point; one that is written out is in the range of `int`. -/
def PrecisionPasses : PrecisionText → Prop
  | .absent | .given (.star _) => True
  | .point => False
  | .given (.number digits) => digitsNumber digits < 2 ^ 31

structure Rebuildable (d : Specification) : Prop where
  width : WidthPasses d.flags d.width
  precision : PrecisionPasses d.precision
  length : d.length ≠ .L
  character : ¬ (d.specifier = 99 ∧ d.length = .l)

theorem widthPasses_iff (flags : List UInt8) {width : WidthText} (h : width.WellFormed)
    (hmin : width ≠ .given (.star (-2 ^ 31))) :
    widthParsed width < 2 ^ 31 ∧ width.meaning (PrintFlags.none.addAll flags)
        = (PrintFlags.none.addAll flags, widthParsed width) ↔
      WidthPasses flags width := by
  cases width with
  | absent => exact iff_of_true ⟨by decide, rfl⟩ trivial
  | given amount =>
    cases amount with
    | number digits =>
      show min (digitsNumber digits) (sizeModulus - 1) % uintModulus < 2 ^ 31 ∧
        (PrintFlags.none.addAll flags, digitsNumber digits) = (PrintFlags.none.addAll flags, _) ↔ _
      rw [Prod.mk.injEq, eq_self_iff_true, true_and]
      unfold widthParsed WidthPasses sizeModulus uintModulus
      dsimp only
      omega
    | star value =>
      obtain ⟨⟨hlow, hhigh⟩, -⟩ := h
      have hne : value ≠ -2 ^ 31 := by
        rintro rfl
        exact hmin rfl
      have hfits : value.natAbs < 2 ^ 31 := by omega
      show value.natAbs < 2 ^ 31 ∧ starWidth (PrintFlags.none.addAll flags) value = (_, value.natAbs) ↔
        0 ≤ value ∨ 45 ∈ flags ∧ value ≠ -2 ^ 31
      -- a negative argument stands for the flag - and its absolute value
      unfold starWidth
      split_ifs with hnegative
      · have hminus := PrintFlags.minus_addAll .none flags
        have hflags : ({ PrintFlags.none.addAll flags with minus := true } : PrintFlags)
            = PrintFlags.none.addAll flags ↔ (PrintFlags.none.addAll flags).minus = true := by
          generalize PrintFlags.none.addAll flags = flags
          obtain ⟨hash, zero, minus, plus, space⟩ := flags
          simp [eq_comm]
        have hnat : (-value).toNat = value.natAbs := by omega
        rw [Prod.mk.injEq, hflags, hminus, hnat]
        have hnone : PrintFlags.none.minus ≠ true := Bool.false_ne_true
        have hvalue : ¬ 0 ≤ value := Int.not_le.mpr hnegative
        tauto
      · have hnat : value.toNat = value.natAbs := by omega
        rw [hnat]
        exact iff_of_true ⟨hfits, rfl⟩ (.inl (Int.not_lt.mp hnegative))

theorem precisionPasses_iff {precision : PrecisionText} (h : precision.WellFormed) :
    (precisionParsed precision = precisionInvalid ∨ precisionParsed precision < 2 ^ 31) ∧
        precision.meaning = (if precisionParsed precision ≠ precisionInvalid then
          some (precisionParsed precision) else none) ↔
      PrecisionPasses precision := by
  cases precision with
  | absent => exact iff_of_true ⟨.inl rfl, rfl⟩ trivial
  | point => exact iff_of_false (fun h => absurd h.2 (by decide)) id
  | given amount =>
    cases amount with
    | number digits =>
      show _ ∧ some (digitsNumber digits) = _ ↔ _
      unfold precisionParsed PrecisionPasses precisionInvalid sizeModulus uintModulus
      dsimp only
      split_ifs with hvalid
      · rw [Option.some.injEq]
        omega
      · rw [not_not] at hvalid
        simp only [and_false, false_iff]
        omega
    | star value =>
      obtain ⟨-, hhigh⟩ := h
      refine iff_of_true ?_ trivial
      show (_ ∨ _) ∧ starPrecision value = _
      unfold starPrecision
      by_cases hvalue : value ≥ 0
      · have hparsed : precisionParsed (.given (.star value)) = value.toNat := if_pos hvalue
        have hvalid : value.toNat ≠ precisionInvalid := by
          unfold precisionInvalid uintModulus
          omega
        rw [hparsed, if_neg (Int.not_lt.mpr hvalue), if_pos hvalid]
        exact ⟨.inr (by omega), rfl⟩
      · have hparsed : precisionParsed (.given (.star value)) = precisionInvalid := if_neg hvalue
        rw [hparsed, if_pos (Int.not_le.mp hvalue)]
        exact ⟨.inl rfl, rfl⟩

theorem specifierPrinted_iff (specifier : UInt8) (length : LengthModifier) :
    specifierPrinted specifier length = specifier ↔ ¬ (specifier = 99 ∧ length = .l) := by
  unfold specifierPrinted
  split_ifs with hwide
  · refine iff_of_false ?_ (not_not.mpr hwide)
    rw [hwide.1]
    decide
  · exact iff_of_true rfl hwide

section

variable {d : Specification} (h : d.WellFormed) (rest : List UInt8) (args : List ℤ)
  (directive : Directive)

include h

theorem vprintDirective_min (hmin : d.width = .given (.star (-2 ^ 31))) :
    vprintDirective (d.text ++ rest) (d.args ++ args) ≠ .ok directive := by
  obtain ⟨kept, -, -, hflags⟩ := parseFlags_append .none h.flags
    (head_width rest h.width d.precision d.length h.specifier)
  rw [vprintDirective, d.text_append, hflags]
  dsimp only
  rw [Specification.args, List.append_assoc, hmin, parseWidth_min]
  exact fun h => absurd h (by simp)

/-- What `L` takes with it is the specifier. -/
theorem vprintDirective_longDouble (hmin : d.width ≠ .given (.star (-2 ^ 31))) (hL : d.length = .L) :
    vprintDirective (d.text ++ rest) (d.args ++ args) ≠ .ok directive := by
  obtain ⟨kept, -, -, hflags⟩ := parseFlags_append .none h.flags
    (head_width rest h.width d.precision d.length h.specifier)
  rw [vprintDirective, d.text_append, hflags]
  dsimp only
  rw [Specification.args, List.append_assoc,
    parseWidth_text h.width hmin (head_precision d.precision d.length h.specifier)]
  dsimp only
  rw [parsePrecision_text h.precision (head_length d.length h.specifier), hL]
  show (match printedSpecifier _ .longLong with | .error fault => Except.error fault | .ok _ => _) ≠ _
  rw [printedSpecifier_longLong]
  exact fun h => absurd h (by simp)

end

/-- The rebuilt directive means what the directive means exactly where its numbers are in range, a negative
width has its flag, the precision is not a lone point, and it asks for neither a `long double` nor a wide
character. -/
theorem rebuilds_iff (d : Specification) (h : d.WellFormed)
    (hsupports : supports d.specifier d.length = true) (rest : List UInt8) (args : List ℤ) :
    Rebuilds d rest args ↔ Rebuildable d := by
  -- two directives are not parsed at all: the smallest argument as a width, and the length L
  by_cases hmin : d.width = .given (.star (-2 ^ 31))
  · refine iff_of_false ?_ ?_
    · rintro ⟨directive, hparse, -⟩
      exact vprintDirective_min h rest args directive hmin hparse
    · intro hrebuildable
      have hwidth := hrebuildable.width
      rw [hmin] at hwidth
      exact hwidth.elim (by decide) fun hminus => hminus.2 rfl
  by_cases hL : d.length = .L
  · refine iff_of_false ?_ fun hrebuildable => hrebuildable.length hL
    rintro ⟨directive, hparse, -⟩
    exact vprintDirective_longDouble h rest args directive hmin hL hparse
  obtain ⟨kept, directive, hkept, hsame, hparse, hcopy, hparsed, hparsedPrecision, hformat, hargs⟩ :=
    vprintDirective_text args h hsupports hL hmin rest
  -- the others are rebuilt, so only what the rebuilt one means is asked for
  have hrebuilds : Rebuilds d rest args ↔ directive.meaning = some d.meaning := by
    constructor
    · rintro ⟨other, hother, hsame, -⟩
      rw [hparse] at hother
      cases hother
      exact hsame
    · exact fun hsame => ⟨directive, hparse, hsame, hformat, hargs⟩
  have hwidth := widthPasses_iff d.flags h.width hmin
  have hprecision := precisionPasses_iff h.precision
  have hspecifier := specifierPrinted_iff d.specifier d.length
  rw [hrebuilds, meaning_rebuilt h hkept hcopy hparsed hparsedPrecision, rebuilt_meaning, hsame]
  constructor
  · intro hsome
    obtain ⟨hfits, hsome⟩ := Option.ite_none_right_eq_some.mp hsome
    unfold Specification.meaning at hsome
    simp only [Option.some.injEq, Conversion.mk.injEq, true_and] at hsome
    obtain ⟨hflags, hw, hp, hs⟩ := hsome
    exact ⟨hwidth.mp ⟨hfits.1, Prod.ext hflags.symm hw.symm⟩, hprecision.mp ⟨hfits.2, hp.symm⟩, hL,
      hspecifier.mp hs⟩
  · intro hrebuildable
    obtain ⟨hw, hmeaning⟩ := hwidth.mpr hrebuildable.width
    obtain ⟨hp, hmeaningPrecision⟩ := hprecision.mpr hrebuildable.precision
    rw [if_pos ⟨hw, hp⟩, Specification.meaning, hmeaning, hmeaningPrecision,
      hspecifier.mpr hrebuildable.character]

/-- `%-5.3ld` -/
theorem rebuilds_iff_long :
    Rebuilds ⟨ascii "-", .given (.number (ascii "5")), .given (.number (ascii "3")), .l, 100⟩ [] [] ↔
      Rebuildable ⟨ascii "-", .given (.number (ascii "5")), .given (.number (ascii "3")), .l, 100⟩ := by
  refine rebuilds_iff _ ⟨by decide, ?_, ?_, by decide⟩ (by decide) [] []
  · exact ⟨⟨by decide, by decide⟩, by decide⟩
  · exact ⟨by decide, by decide⟩

/-- `%*d` with the width -5 loses its flag. -/
theorem negative_width_not_rebuilt :
    let d : Specification := ⟨[], .given (.star (-5)), .absent, .none, 100⟩
    d.WellFormed ∧ supports d.specifier d.length = true ∧ ¬ Rebuilds d [] [] := by
  refine ⟨⟨by decide, ⟨⟨by decide, by decide⟩, by decide⟩, trivial, by decide⟩, by decide, ?_⟩
  rintro ⟨directive, hparse, hmeaning, -⟩
  cases hparse
  exact absurd hmeaning (by decide)

end Twinkleshine
