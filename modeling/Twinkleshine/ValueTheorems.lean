import Twinkleshine.Strtol
import Twinkleshine.Value

/-!
# Values as the concatenation of their parts

Reference: `source/value.c`.

Each function walks over the parts with a remainder of its own. What it does is a function of the
concatenation: cutting is `take` and `drop`, comparing is equality, and `value_to_uint` reads a decimal
number.
-/

namespace Twinkleshine

open Library

/-! ## Cutting -/

theorem secondPart_fst (part : List UInt8) (size : ℕ) : (secondPart part size).1 = part.drop size := by
  unfold secondPart
  split_ifs with hlong
  · rfl
  · exact (List.drop_eq_nil_of_le (Nat.not_lt.mp hlong)).symm

theorem secondPart_snd (part : List UInt8) (size : ℕ) :
    (secondPart part size).2 = size - part.length := by
  unfold secondPart
  split_ifs with hlong
  · exact (Nat.sub_eq_zero_of_le (Nat.le_of_lt hlong)).symm
  · rfl

/-- `value_second` drops from the concatenation of the parts. -/
theorem valueSecond_bytes (value : ConstantValue) (size : ℕ) :
    (valueSecond value size).bytes = value.bytes.drop size := by
  unfold valueSecond
  by_cases hsize : size > 0
  · simp only [if_pos hsize, secondPart_fst, secondPart_snd]
    rw [ConstantValue.bytes, ConstantValue.bytes, List.drop_append]
    split_ifs with hrest
    · rfl
    · rw [Nat.eq_zero_of_not_pos hrest, List.drop_zero]
  · rw [if_neg hsize, Nat.eq_zero_of_not_pos hsize, List.drop_zero]

theorem valueFirstSecond_rest (value : ConstantValue) (size : ℕ) :
    (valueFirstSecond value size).1.bytes = value.bytes.drop size := by
  simp only [valueFirstSecond, ConstantValue.bytes, List.drop_append]
  split_ifs with hlong
  · rw [Nat.sub_eq_zero_of_le (by omega)]
  · rfl

theorem valueFirstSecond_first (value : ConstantValue) (size : ℕ) :
    (valueFirstSecond value size).2.bytes = value.bytes.take size := by
  simp only [valueFirstSecond, ConstantValue.bytes, List.take_append]
  split_ifs with hlong
  · rw [Nat.sub_eq_zero_of_le (by omega)]
  · rfl

/-- Wherever the parts are divided, the continuous value is the bytes. -/
theorem valueToContinuous_eq (value : ConstantValue) : valueToContinuous value = value.bytes := by
  have hsize : valueSize value = value.part0.length + value.part1.length := rfl
  unfold valueToContinuous ConstantValue.bytes
  split_ifs with hpart0 hpart1
  · rw [List.eq_nil_of_length_eq_zero (l := value.part1) (by omega), List.append_nil]
  · rw [List.eq_nil_of_length_eq_zero (l := value.part0) (by omega), List.nil_append]
  · rfl

/-! ## Comparing -/

/-- Parts that are compared one after the other are compared as a whole. -/
theorem valueCompareMem_iff (a : ConstantValue) (b : List UInt8) :
    valueCompareMem a b = true ↔ a.bytes = b := by
  unfold valueCompareMem
  rw [valueSize_eq, ConstantValue.bytes]
  constructor
  · intro h
    split_ifs at h with hsize hpart0
    rw [decide_eq_true_iff] at h
    rw [not_not] at hsize hpart0
    rw [List.length_append] at hsize
    rw [List.take_of_length_le (by rw [List.length_drop]; omega)] at h
    calc a.part0 ++ a.part1 = b.take a.part0.length ++ b.drop a.part0.length :=
          congrArg₂ (· ++ ·) hpart0 h
      _ = b := List.take_append_drop _ _
  · rintro rfl
    rw [if_neg (not_not.mpr rfl), List.take_left, if_neg (not_not.mpr rfl), List.drop_left,
      List.take_length, decide_eq_true_iff]

/-- A string is what stands in front of the first zero. -/
theorem take_strlen (string : List UInt8) : string.take (strlen string) = string.takeWhile (· ≠ 0) := by
  rw [strlen]
  exact (List.prefix_iff_eq_take.mp (List.takeWhile_prefix _)).symm

/-! ## Writing -/

/-- A part lies inside an allocation of `capacity` bytes. -/
def MutableContinuousValue.Inside (part : MutableContinuousValue) (capacity : ℕ) : Prop :=
  part.size = 0 ∨ part.p + part.size ≤ capacity

/-- Both parts lie inside the allocation, and no byte is in both. -/
structure MutableValue.Placed (value : MutableValue) (capacity : ℕ) : Prop where
  inside0 : value.part0.Inside capacity
  inside1 : value.part1.Inside capacity
  disjoint : value.part0.size = 0 ∨ value.part1.size = 0 ∨
    value.part0.p + value.part0.size ≤ value.part1.p ∨
    value.part1.p + value.part1.size ≤ value.part0.p

theorem MutableValue.zero_placed (capacity : ℕ) : MutableValue.zero.Placed capacity :=
  ⟨.inl rfl, .inl rfl, .inl rfl⟩

variable {block bytes : List UInt8} {part other : MutableContinuousValue}

/-- A part that was written is read back. -/
theorem read_memcpy_self (hpart : part.Inside block.length) (hbytes : bytes.length = part.size) :
    part.read (memcpy block part.p bytes) = bytes := by
  rcases hpart with hzero | hfit
  · have hnil : bytes = [] := List.eq_nil_of_length_eq_zero (hbytes.trans hzero)
    rw [MutableContinuousValue.read, hzero, List.take_zero, hnil]
  · rw [MutableContinuousValue.read, memcpy, drop_overwrite_self (by omega), ← hbytes, List.take_left]

/-- A part that shares no byte with what is written is left as it is. -/
theorem read_memcpy_other (hpart : part.Inside block.length) (hbytes : bytes.length = part.size)
    (hother : other.size = 0 ∨ part.size = 0 ∨ other.p + other.size ≤ part.p ∨
      part.p + part.size ≤ other.p) :
    other.read (memcpy block part.p bytes) = other.read block := by
  rcases hother with hzero | hzero | hbefore | hafter
  · rw [MutableContinuousValue.read, MutableContinuousValue.read, hzero, List.take_zero, List.take_zero]
  · rw [List.eq_nil_of_length_eq_zero (hbytes.trans hzero), memcpy, overwrite_nil]
  · rcases hpart with hzero | hfit
    · rw [List.eq_nil_of_length_eq_zero (hbytes.trans hzero), memcpy, overwrite_nil]
    · have hwrite : part.p + bytes.length ≤ block.length := by omega
      rw [MutableContinuousValue.read, MutableContinuousValue.read, memcpy, List.take_drop,
        List.take_drop, take_overwrite_of_le hwrite hbefore]
  · rcases hpart with hzero | hfit
    · rw [List.eq_nil_of_length_eq_zero (hbytes.trans hzero), memcpy, overwrite_nil]
    · have hwrite : part.p + bytes.length ≤ block.length := by omega
      rw [MutableContinuousValue.read, MutableContinuousValue.read, memcpy,
        drop_overwrite_of_le hwrite (by omega)]

/-- `value_write` writes a string of the size of the value: it is the value's concatenation then. -/
theorem valueWrite_bytes {value : MutableValue} (hvalue : value.Placed block.length)
    {source : List UInt8} (hsource : source.length = value.part0.size + value.part1.size) :
    (value.read (valueWrite block value source)).bytes = source := by
  have htake : (source.take value.part0.size).length = value.part0.size := by
    rw [List.length_take]
    omega
  have hdrop : (source.drop value.part0.size).length = value.part1.size := by
    rw [List.length_drop]
    omega
  have hlength : (memcpy block value.part0.p (source.take value.part0.size)).length = block.length := by
    rcases hvalue.inside0 with hzero | hfit
    · rw [hzero, List.take_zero, memcpy, overwrite_nil]
    · rw [memcpy, length_overwrite (by omega)]
  have hinside : value.part1.Inside
      (memcpy block value.part0.p (source.take value.part0.size)).length := by
    rw [hlength]
    exact hvalue.inside1
  have hapart : value.part0.size = 0 ∨ value.part1.size = 0 ∨
      value.part0.p + value.part0.size ≤ value.part1.p ∨
      value.part1.p + value.part1.size ≤ value.part0.p := hvalue.disjoint
  rw [valueWrite, List.take_of_length_le (Nat.le_of_eq hdrop), ConstantValue.bytes, MutableValue.read,
    read_memcpy_other hinside hdrop hapart, read_memcpy_self hvalue.inside0 htake,
    read_memcpy_self hinside hdrop, List.take_append_drop]

/-! ## Whatever the split -/

/-- A value behaves as these bytes. -/
structure ConstantValue.ActsAs (value : ConstantValue) (bytes : List UInt8) : Prop where
  size : valueSize value = bytes.length
  first : ∀ size, (valueFirst value size).bytes = bytes.take size
  second : ∀ size, (valueSecond value size).bytes = bytes.drop size
  firstSecond : ∀ size, (valueFirstSecond value size).2.bytes = bytes.take size ∧
    (valueFirstSecond value size).1.bytes = bytes.drop size
  read : valueRead value = bytes
  toContinuous : valueToContinuous value = bytes
  compareMem : ∀ b, valueCompareMem value b = true ↔ bytes = b
  compareStr : ∀ b, valueCompareStr value b = true ↔ bytes = b.takeWhile (· ≠ 0)
  compareCaseMem : ∀ b, valueCompareCaseMem value b = true ↔ bytes.map lowerCase = b
  compareCaseStr : ∀ b, valueCompareCaseStr value b = true ↔
    bytes.map lowerCase = b.takeWhile (· ≠ 0)

theorem ConstantValue.actsAs (value : ConstantValue) : value.ActsAs value.bytes where
  size := valueSize_eq value
  first := valueFirst_bytes value
  second := valueSecond_bytes value
  firstSecond size := ⟨valueFirstSecond_first value size, valueFirstSecond_rest value size⟩
  read := valueRead_eq value
  toContinuous := valueToContinuous_eq value
  compareMem := valueCompareMem_iff value
  compareStr b := by
    rw [valueCompareStr, valueCompareMem_iff, take_strlen]
  compareCaseMem := valueCompareCaseMem_iff value
  compareCaseStr b := by
    rw [valueCompareCaseStr, valueCompareCaseMem_iff, take_strlen]

/-- Values with the same concatenation act as that concatenation, wherever they are split, and a value
becomes the string that is written to it. -/
theorem values_actAsBytes :
    (∀ value other : ConstantValue, value.bytes = other.bytes → value.ActsAs other.bytes) ∧
      ∀ (block : List UInt8) (value : MutableValue) (source : List UInt8),
        value.Placed block.length → source.length = value.part0.size + value.part1.size →
        (value.read (valueWrite block value source)).bytes = source := by
  refine ⟨fun value other hsame => ?_, fun block value source hvalue hsource => ?_⟩
  · rw [← hsame]
    exact value.actsAs
  · exact valueWrite_bytes hvalue hsource

/-- A value that wraps in its block, the first part at the end and the second at the start. -/
theorem values_actAsBytes_wrapped :
    (⟨[97], [98, 99]⟩ : ConstantValue).ActsAs (⟨[97, 98], [99]⟩ : ConstantValue).bytes ∧
      ((⟨⟨3, 1⟩, ⟨0, 2⟩⟩ : MutableValue).read
        (valueWrite [0, 0, 0, 0] ⟨⟨3, 1⟩, ⟨0, 2⟩⟩ [97, 98, 99])).bytes = [97, 98, 99] := by
  have hplaced : (⟨⟨3, 1⟩, ⟨0, 2⟩⟩ : MutableValue).Placed ([0, 0, 0, 0] : List UInt8).length :=
    ⟨.inr (Nat.le_refl 4), .inr (by decide), .inr (.inr (.inr (by decide)))⟩
  exact ⟨values_actAsBytes.1 _ _ rfl, values_actAsBytes.2 _ _ _ hplaced rfl⟩

/-! ## Numbers -/

/-- A value that passes the guard of `value_to_uint` has room for one more digit. -/
theorem uint_digit_lt {localResult : ℕ} (hguard : ¬ localResult ≥ (uintMax - 9) / 10) {c : UInt8}
    (hc : isDecimal c = true) : 10 * localResult + (c.toNat - 48) < 4294967280 := by
  have hlimit : (uintMax - 9) / 10 = 429496728 := rfl
  rw [isDecimal, Bool.and_eq_true, decide_eq_true_iff, decide_eq_true_iff, UInt8.le_iff_toNat_le,
    UInt8.le_iff_toNat_le] at hc
  have hdigit : c.toNat ≤ 57 := hc.2
  omega

/-- The loop of `value_to_uint` reads digits on, as long as the number they stand for is small enough. -/
theorem valueToUintPart_spec {n : ℕ} (hn : n < 4294967280) (cs : List UInt8) :
    valueToUintPart n cs
      = if cs.all isDecimal = true ∧ cs.foldl (fun n c => 10 * n + (c.toNat - 48)) n < 4294967280
        then some (cs.foldl (fun n c => 10 * n + (c.toNat - 48)) n) else none := by
  induction cs generalizing n with
  | nil => exact (if_pos ⟨rfl, hn⟩).symm
  | cons c cs ih =>
    have hlimit : (uintMax - 9) / 10 = 429496728 := rfl
    rw [valueToUintPart, List.foldl_cons, List.all_cons]
    by_cases hguard : n ≥ (uintMax - 9) / 10
    · -- the digits behind the guard only make the number larger
      have hlarge := le_foldl_decimal cs (10 * n + (c.toNat - 48))
      rw [if_pos hguard, if_neg]
      rintro ⟨-, hsmall⟩
      omega
    · rw [if_neg hguard]
      by_cases hc : isDecimal c = true
      · have hnext := uint_digit_lt hguard hc
        have hmod : (10 * n + (c.toNat - 48)) % uintModulus = 10 * n + (c.toNat - 48) :=
          Nat.mod_eq_of_lt (Nat.lt_trans hnext (by decide))
        have hdigit : 48 ≤ c ∧ c ≤ 57 := by
          simpa only [isDecimal, Bool.and_eq_true, decide_eq_true_iff] using hc
        rw [if_pos hdigit, hmod, ih hnext]
        simp only [hc, Bool.true_and]
      · have hdigit : ¬ (48 ≤ c ∧ c ≤ 57) := by
          simpa only [isDecimal, Bool.and_eq_true, decide_eq_true_iff] using hc
        rw [if_neg hdigit, if_neg fun hall => hc (Bool.and_eq_true_iff.mp hall.1).1]

/-- `value_to_uint` never wraps: a digit that it adds to what it has read fits into 32 bits. It succeeds on
digits that stand for a number below the rounded limit, stores that number, and stores nothing else. -/
theorem valueToUint_decimal (a : ConstantValue) (result : ℕ) :
    (∀ front c back localResult, a.bytes = front ++ c :: back →
      valueToUintPart 0 front = some localResult → localResult < (uintMax - 9) / 10 →
      isDecimal c = true → 10 * localResult + (c.toNat - 48) < uintModulus) ∧
    valueToUintResult a result
      = if a.bytes.all isDecimal = true ∧ digitsNumber a.bytes < 4294967280
        then (true, digitsNumber a.bytes) else (false, result) := by
  refine ⟨fun front c back localResult _ _ hguard hc => ?_, ?_⟩
  · exact Nat.lt_trans (uint_digit_lt (Nat.not_le.mpr hguard) hc) (by decide)
  · rw [valueToUintResult, valueToUint_eq, valueToUintPart_spec (by decide), ← digitsNumber]
    split_ifs with hnumber
    · rfl
    · rfl

/-- The number above the limit is read as none, and leaves the result. -/
theorem valueToUint_decimal_limit :
    valueToUintResult ⟨ascii "00429496", ascii "7279"⟩ 5 = (true, 4294967279) ∧
      valueToUintResult ⟨ascii "4294967", ascii "280"⟩ 5 = (false, 5) ∧
      10 * 429496727 + ((57 : UInt8).toNat - 48) < uintModulus := by
  refine ⟨(valueToUint_decimal _ _).2, (valueToUint_decimal _ _).2, ?_⟩
  exact (valueToUint_decimal ⟨ascii "4294967279", []⟩ 0).1 (ascii "429496727") 57 [] 429496727 rfl rfl
    (by decide) rfl

end Twinkleshine
