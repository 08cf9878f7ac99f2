import Twinkleshine.Constants
import Twinkleshine.Memory
import Mathlib.Data.List.DropRight

/-!
# Values in two parts

Reference: `include/value.h`, `source/value.c`.

A value is memory in `VALUE_PARTS = 2` contiguous parts, because a ring may wrap inside it. A mutable
part is a pointer into a block with a size. A constant part is only read, so it is the list of bytes
it points to. `ConstantValue.bytes` is the concatenation of the parts; the theorems at the end of the
module say that what a function returns depends on the concatenation alone.
-/

namespace Twinkleshine

open Library

/-- Specification of a memory location inside a container. -/
structure ValueLocation where
  offset : ℕ
  size : ℕ
deriving DecidableEq, Repr

/-- `ZERO_INIT` -/
def ValueLocation.zero : ValueLocation := ⟨0, 0⟩

/-- Where the location ends. -/
def ValueLocation.limit (location : ValueLocation) : ℕ := location.offset + location.size

/-- Mutable continuous memory: `size` bytes from the offset `p` of a block on. -/
structure MutableContinuousValue where
  p : ℕ
  size : ℕ
deriving DecidableEq, Repr

/-- Mutable non-continuous memory. -/
structure MutableValue where
  part0 : MutableContinuousValue
  part1 : MutableContinuousValue
deriving DecidableEq, Repr

/-- `ZERO_INIT` -/
def MutableValue.zero : MutableValue := ⟨⟨0, 0⟩, ⟨0, 0⟩⟩

/-- Constant non-continuous memory. -/
structure ConstantValue where
  part0 : List UInt8
  part1 : List UInt8
deriving DecidableEq, Repr

/-- The concatenation of the parts. -/
def ConstantValue.bytes (value : ConstantValue) : List UInt8 := value.part0 ++ value.part1

/-- The bytes a part points to in `block`. -/
def MutableContinuousValue.read (part : MutableContinuousValue) (block : List UInt8) :
    List UInt8 :=
  (block.drop part.p).take part.size

/-- A mutable value as a constant one: the member `c` of `union Value`. -/
def MutableValue.read (value : MutableValue) (block : List UInt8) : ConstantValue :=
  ⟨value.part0.read block, value.part1.read block⟩

/-- `value_size` -/
def valueSize (value : ConstantValue) : ℕ := value.part0.length + value.part1.length

/-- `value_write`: copy `source` over the parts, first part first. -/
def valueWrite (block : List UInt8) (value : MutableValue) (source : List UInt8) : List UInt8 :=
  let block := memcpy block value.part0.p (source.take value.part0.size)
  memcpy block value.part1.p ((source.drop value.part0.size).take value.part1.size)

/-- `value_read`: the bytes copied out of both parts, in order. -/
def valueRead (value : ConstantValue) : List UInt8 := value.part0 ++ value.part1

/-- `value_first_second`: what is left of the value, and its first `size` bytes. -/
def valueFirstSecond (value : ConstantValue) (size : ℕ) : ConstantValue × ConstantValue :=
  let size1 := if value.part0.length > size then 0 else size - value.part0.length
  (⟨value.part0.drop size, value.part1.drop size1⟩, ⟨value.part0.take size, value.part1.take size1⟩)

/-- `value_first`: the value cut to its first `size` bytes. -/
def valueFirst (value : ConstantValue) (size : ℕ) : ConstantValue :=
  let size1 := if value.part0.length > size then 0 else size - value.part0.length
  ⟨if value.part0.length > size then value.part0.take size else value.part0,
    if value.part1.length > size1 then value.part1.take size1 else value.part1⟩

/-- The body of the loop of `value_second` for one part: what is left of the part, and how many bytes are
still to be skipped. -/
def secondPart (part : List UInt8) (size : ℕ) : List UInt8 × ℕ :=
  if part.length > size then (part.drop size, 0) else ([], size - part.length)

/-- `value_second`: the value without its first `size` bytes. -/
def valueSecond (value : ConstantValue) (size : ℕ) : ConstantValue :=
  if size > 0 then
    let (part0, size) := secondPart value.part0 size
    if size > 0 then ⟨part0, (secondPart value.part1 size).1⟩ else ⟨part0, value.part1⟩
  else value

/-- `value_to_continuous`: the part that holds everything, or a copy of both parts in a buffer. -/
def valueToContinuous (value : ConstantValue) : List UInt8 :=
  if value.part0.length = valueSize value then value.part0
  else if value.part1.length = valueSize value then value.part1
  else valueRead value

/-! ## Comparison -/

/-- `strlen` of a string in a block of memory. -/
def strlen (string : List UInt8) : ℕ := (string.takeWhile (· ≠ 0)).length

/-- `value_compare_mem`: each part is compared with as many bytes of `b`. -/
def valueCompareMem (a : ConstantValue) (b : List UInt8) : Bool :=
  if valueSize a ≠ b.length then false
  else if a.part0 ≠ b.take a.part0.length then false
  else a.part1 = (b.drop a.part0.length).take a.part1.length

/-- `value_compare_str` -/
def valueCompareStr (a : ConstantValue) (b : List UInt8) : Bool := valueCompareMem a (b.take (strlen b))

/-- `ac += ('a' - 'A')` for a capital letter. -/
def lowerCase (c : UInt8) : UInt8 := if 65 ≤ c && c ≤ 90 then c + 32 else c

/-- One part of `value_compare_case_mem`: what remains of `b` when the part matches its front. -/
def compareCasePart : List UInt8 → List UInt8 → Option (List UInt8)
  | [], b => some b
  | _ :: _, [] => none
  | ac :: a, bc :: b => if lowerCase ac = bc then compareCasePart a b else none

/-- `value_compare_case_mem`: case-insensitive comparison with `b`, which is lowercase. -/
def valueCompareCaseMem (a : ConstantValue) (b : List UInt8) : Bool :=
  if valueSize a ≠ b.length then false
  else
    match compareCasePart a.part0 b with
    | none => false
    | some rest => (compareCasePart a.part1 rest).isSome

/-- `value_compare_case_str` -/
def valueCompareCaseStr (a : ConstantValue) (b : List UInt8) : Bool :=
  valueCompareCaseMem a (b.take (strlen b))

/-! ## Words of a comma-separated value -/

/-- `memchr` for a comma: the bytes before it and the bytes after it. -/
def splitComma : List UInt8 → Option (List UInt8 × List UInt8)
  | [] => none
  | c :: cs =>
    if c = 44 then some ([], cs) else (splitComma cs).map fun (word, rest) => (c :: word, rest)

/-- `value_parse_comma`: the remaining value, the extracted word, and whether anything was left. -/
def valueParseComma (a : ConstantValue) : ConstantValue × ConstantValue × Bool :=
  match splitComma a.part0 with
  | some (word, rest) => (⟨rest, a.part1⟩, ⟨word, []⟩, true)
  | none =>
    match splitComma a.part1 with
    | some (word, rest) => (⟨[], rest⟩, ⟨a.part0, word⟩, true)
    | none => (⟨[], []⟩, a, a.part0.length > 0 || a.part1.length > 0)

/-- The blanks `value_trim` deletes: space, tab, newline, carriage return, vertical tab. -/
def isBlank (c : UInt8) : Bool := c == 32 || c == 9 || c == 10 || c == 13 || c == 11

/-- `value_trim`: delete the blanks at both ends. -/
def valueTrim (a : ConstantValue) : ConstantValue :=
  let part0 := a.part0.dropWhile isBlank
  let part1 := if part0 = [] then a.part1.dropWhile isBlank else a.part1
  if part0 = [] ∧ part1 = [] then ⟨[], []⟩ -- only blanks: the first loop returns
  else
    let trimmed1 := part1.rdropWhile isBlank
    ⟨if trimmed1 = [] then part0.rdropWhile isBlank else part0, trimmed1⟩

/-- The second loop of `value_trim`, from the last part back to the first. Its index is not checked: it is
`none` when the loop leaves the value at its front. -/
def trimEnd (a : ConstantValue) : Option ConstantValue :=
  if a.part1.rdropWhile isBlank ≠ [] then some ⟨a.part0, a.part1.rdropWhile isBlank⟩
  else if a.part0.rdropWhile isBlank ≠ [] then some ⟨a.part0.rdropWhile isBlank, []⟩
  else none

/-- `value_trim` with the index of its second loop, `none` when that loop reads outside of the value. -/
def valueTrimIndexed (a : ConstantValue) : Option ConstantValue :=
  let part0 := a.part0.dropWhile isBlank
  let part1 := if part0 = [] then a.part1.dropWhile isBlank else a.part1
  if part0 = [] ∧ part1 = [] then some ⟨[], []⟩ else trimEnd ⟨part0, part1⟩

/-! ## Numbers -/

/-- `UINT_MAX` -/
def uintMax : ℕ := uintModulus - 1

/-- The loop of `value_to_uint` over one part. -/
def valueToUintPart : ℕ → List UInt8 → Option ℕ
  | localResult, [] => some localResult
  | localResult, c :: cs =>
    if localResult ≥ (uintMax - 9) / 10 then none
    else if 48 ≤ c ∧ c ≤ 57 then
      valueToUintPart ((10 * localResult + (c.toNat - 48)) % uintModulus) cs
    else none

/-- `value_to_uint`: the number written in `a`, `none` when the function returns `false`. -/
def valueToUint (a : ConstantValue) : Option ℕ :=
  (valueToUintPart 0 a.part0).bind fun localResult => valueToUintPart localResult a.part1

/-- What `value_to_uint` returns, and what `*result` is afterwards. -/
def valueToUintResult (a : ConstantValue) (result : ℕ) : Bool × ℕ :=
  match valueToUint a with
  | some localResult => (true, localResult)
  | none => (false, result)

/-! ## Independence of the split -/

@[simp] theorem valueRead_eq (value : ConstantValue) : valueRead value = value.bytes := rfl

theorem valueSize_eq (value : ConstantValue) : valueSize value = value.bytes.length := by
  simp [valueSize, ConstantValue.bytes]

/-- `value_first` cuts the concatenation of the parts. -/
theorem valueFirst_bytes (value : ConstantValue) (size : ℕ) :
    (valueFirst value size).bytes = value.bytes.take size := by
  simp only [valueFirst, ConstantValue.bytes, List.take_append]
  by_cases h : value.part0.length > size
  · have hzero : size - value.part0.length = 0 := by omega
    simp only [if_pos h, hzero, List.take_zero]
    split_ifs with h1
    · rfl
    · rw [List.eq_nil_of_length_eq_zero (by omega : value.part1.length = 0)]
  · simp only [if_neg h, List.take_of_length_le (Nat.not_lt.mp h)]
    split_ifs with h1
    · rfl
    · rw [List.take_of_length_le (Nat.not_lt.mp h1)]

theorem compareCasePart_append (a a' b : List UInt8) :
    compareCasePart (a ++ a') b = (compareCasePart a b).bind (compareCasePart a') := by
  induction a generalizing b with
  | nil => rfl
  | cons ac a ih =>
    cases b with
    | nil => rfl
    | cons bc b =>
      simp only [List.cons_append, compareCasePart]
      split_ifs
      · exact ih b
      · rfl

/-- A part matches exactly when its lower-cased bytes are in front of `b`. -/
theorem compareCasePart_eq_some {a b rest : List UInt8} :
    compareCasePart a b = some rest ↔ b = a.map lowerCase ++ rest := by
  induction a generalizing b with
  | nil => simp [compareCasePart, eq_comm]
  | cons ac a ih =>
    cases b with
    | nil => simp [compareCasePart]
    | cons bc b =>
      simp only [compareCasePart, List.map_cons, List.cons_append, List.cons.injEq]
      split_ifs with hc
      · rw [ih]
        exact ⟨fun h => ⟨hc.symm, h⟩, fun h => h.2⟩
      · exact ⟨fun h => absurd h (by simp), fun h => absurd h.1.symm hc⟩

/-- The comparison is equality with the lower-cased concatenation. -/
theorem valueCompareCaseMem_iff (a : ConstantValue) (b : List UInt8) :
    valueCompareCaseMem a b = true ↔ a.bytes.map lowerCase = b := by
  have hmatch : valueCompareCaseMem a b
      = if valueSize a ≠ b.length then false else (compareCasePart a.bytes b).isSome := by
    rw [valueCompareCaseMem, ConstantValue.bytes, compareCasePart_append]
    cases compareCasePart a.part0 b <;> rfl
  rw [hmatch, valueSize_eq]
  split_ifs with hsize
  · refine ⟨fun h => absurd h (by simp), fun h => absurd ?_ hsize⟩
    rw [← h, List.length_map]
  · rw [Option.isSome_iff_exists]
    constructor
    · rintro ⟨rest, hrest⟩
      rw [compareCasePart_eq_some] at hrest
      have hlen := congrArg List.length hrest
      rw [List.length_append, List.length_map] at hlen
      have : rest = [] := List.eq_nil_of_length_eq_zero (by omega)
      rw [hrest, this, List.append_nil]
    · intro h
      exact ⟨[], compareCasePart_eq_some.mpr (by rw [h, List.append_nil])⟩

theorem valueCompareCaseMem_congr {a a' : ConstantValue} (h : a.bytes = a'.bytes)
    (b : List UInt8) : valueCompareCaseMem a b = valueCompareCaseMem a' b := by
  rw [Bool.eq_iff_iff, valueCompareCaseMem_iff, valueCompareCaseMem_iff, h]

theorem splitComma_append (a a' : List UInt8) :
    splitComma (a ++ a') = match splitComma a with
      | some (word, rest) => some (word, rest ++ a')
      | none => (splitComma a').map fun (word, rest) => (a ++ word, rest) := by
  induction a with
  | nil => simp [splitComma]
  | cons c a ih =>
    simp only [List.cons_append, splitComma]
    split_ifs
    · rfl
    · rw [ih]
      cases splitComma a with
      | some wr => rfl
      | none => cases splitComma a' <;> rfl

/-- On a value in one part, `value_parse_comma` splits at the first comma. -/
def parseCommaBytes (bytes : List UInt8) : List UInt8 × List UInt8 × Bool :=
  match splitComma bytes with
  | some (word, rest) => (rest, word, true)
  | none => ([], bytes, bytes.length > 0)

/-- `value_parse_comma` acts on the concatenation of the parts. -/
theorem valueParseComma_bytes (a : ConstantValue) :
    ((valueParseComma a).1.bytes, (valueParseComma a).2.1.bytes, (valueParseComma a).2.2)
      = parseCommaBytes a.bytes := by
  simp only [parseCommaBytes, valueParseComma, ConstantValue.bytes, splitComma_append]
  cases splitComma a.part0 with
  | some wr => simp
  | none =>
    cases splitComma a.part1 with
    | some wr => simp
    | none =>
      refine Prod.ext (by simp) (Prod.ext (by simp) ?_)
      rw [Bool.eq_iff_iff]
      simp only [Option.map_none, gt_iff_lt, List.length_append, Bool.or_eq_true, decide_eq_true_eq]
      omega

/-- The bytes without the blanks at both ends. -/
def trimBytes (bytes : List UInt8) : List UInt8 := (bytes.dropWhile isBlank).rdropWhile isBlank

/-- `value_trim` acts on the concatenation of the parts. -/
theorem valueTrim_bytes (a : ConstantValue) : (valueTrim a).bytes = trimBytes a.bytes := by
  have hrdrop : ∀ l l' : List UInt8, (l ++ l').rdropWhile isBlank
      = if l'.rdropWhile isBlank = [] then l.rdropWhile isBlank else l ++ l'.rdropWhile isBlank := by
    intro l l'
    simp only [List.rdropWhile, List.reverse_append, List.dropWhile_append, List.isEmpty_iff,
      List.reverse_eq_nil_iff]
    split_ifs <;> simp
  simp only [valueTrim, ConstantValue.bytes, trimBytes, List.dropWhile_append, List.isEmpty_iff]
  by_cases h0 : a.part0.dropWhile isBlank = []
  · simp only [h0, if_true, true_and]
    by_cases h1 : a.part1.dropWhile isBlank = []
    · simp [h1, List.rdropWhile]
    · simp [h1, List.rdropWhile]
  · simp only [h0, if_false, false_and]
    rw [hrdrop]
    split_ifs with h1 <;> simp [h1]

theorem valueToUintPart_append (r : ℕ) (a a' : List UInt8) :
    valueToUintPart r (a ++ a') = (valueToUintPart r a).bind (valueToUintPart · a') := by
  induction a generalizing r with
  | nil => rfl
  | cons c a ih =>
    simp only [List.cons_append, valueToUintPart]
    split_ifs
    · rfl
    · exact ih _
    · rfl

/-- `value_to_uint` reads the concatenation of the parts. -/
theorem valueToUint_eq (a : ConstantValue) : valueToUint a = valueToUintPart 0 a.bytes :=
  (valueToUintPart_append 0 a.part0 a.part1).symm

end Twinkleshine
