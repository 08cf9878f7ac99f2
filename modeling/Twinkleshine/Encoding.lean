import Twinkleshine.ExtendedError
import Twinkleshine.Library.Outcome
import Twinkleshine.Library.Utf8

/-!
# Narrow and wide strings

Reference: `string_internal_to_wstring` and `string_internal_to_nstring` in `commonlib/source/string.c`.

Narrow strings are UTF-8, wide strings are UTF-32 or, where `wchar_t` has two bytes, UTF-16. Each function
goes through its source symbol by symbol. With a null destination it only counts.

The encoder marks a symbol of four bytes with the lead byte of one of three.
-/

namespace Twinkleshine

open Library

/-! ## Converting -/

/-- The destination of a conversion, `none` for `NULL`, and the size that is reported. -/
structure Destination (α : Type) where
  units : Option (List α)
  size : ℕ
deriving DecidableEq, Repr

/-- Write units and count. -/
def Destination.put {α : Type} (destination : Destination α) (units : List α) (counted : ℕ) :
    Destination α :=
  ⟨destination.units.map (· ++ units), destination.size + counted⟩

/-- The error of `SOFT_ARET` and `SOFT_RET`. -/
def softError (suppressErrors : Bool) (expression : Error) : Error :=
  if suppressErrors then "PANIC" else expression

/-- `(unsigned int)` of a `char`, which is signed -/
def unsignedInt (c : UInt8) : ℕ := if c.toNat < 128 then c.toNat else c.toNat + 0xFFFFFF00

/-- Decode UTF-8: the code of the first symbol, and how many bytes it has. -/
def decodeNarrow (suppressErrors : Bool) (np : List UInt8) : Except Error (ℕ × ℕ) :=
  let nc := unsignedInt (np.getD 0 0)
  let np1 := unsignedInt (np.getD 1 0)
  let np2 := unsignedInt (np.getD 2 0)
  let np3 := unsignedInt (np.getD 3 0)
  if nc &&& 0x80 = 0 then .ok (nc, 1)
  else if nc &&& 0xE0 = 0xC0 then
    if np.length ≥ 2 ∧ np1 &&& 0xC0 = 0x80 then
      .ok (((nc &&& 0x1F) <<< 6) ||| (np1 &&& 0x3F), 2)
    else .error (softError suppressErrors "nsize >= 2 && ((unsigned int)np[1] & 0xC0) == 0x80")
  else if nc &&& 0xF0 = 0xE0 then
    if np.length ≥ 3 ∧ np1 &&& 0xC0 = 0x80 ∧ np2 &&& 0xC0 = 0x80 then
      .ok (((nc &&& 0x0F) <<< 12) ||| ((np1 &&& 0x3F) <<< 6) ||| (np2 &&& 0x3F), 3)
    else
      .error (softError suppressErrors
        "nsize >= 3 && ((unsigned int)np[1] & 0xC0) == 0x80 && ((unsigned int)np[2] & 0xC0) == 0x80")
  else if nc &&& 0xF8 = 0xF0 then
    if np.length ≥ 4 ∧ np1 &&& 0xC0 = 0x80 ∧ np2 &&& 0xC0 = 0x80 ∧ np3 &&& 0xC0 = 0x80 then
      .ok (((nc &&& 0x07) <<< 18) ||| ((np1 &&& 0x3F) <<< 12) ||| ((np2 &&& 0x3F) <<< 6) |||
        (np3 &&& 0x3F), 4)
    else
      .error (softError suppressErrors ("nsize >= 4 && ((unsigned int)np[1] & 0xC0) == 0x80 && " ++
        "((unsigned int)np[2] & 0xC0) == 0x80 && ((unsigned int)np[3] & 0xC0) == 0x80"))
  else .error (softError suppressErrors "")

/-- Encode UTF-32 or UTF-16: the units of a code. -/
def encodeWide (sizeofWchar : ℕ) (suppressErrors : Bool) (code : ℕ) : Except Error (List ℕ) :=
  if sizeofWchar > 2 then .ok [code]
  else if code < 0xE000 ∨ (code ≥ 0xD800 ∧ code < 0x110000) then
    if code < 0x10000 then .ok [code]
    else .ok [((code - 0x10000) >>> 10) &&& 0x3FF, (code - 0x10000) &&& 0x3FF]
  else .error (softError suppressErrors "code < 0xE000 || (code >= 0xD800 && code < 0x110000)")

/-- The loop of `string_internal_to_wstring`. -/
def toWstringLoop (sizeofWchar : ℕ) (suppressErrors : Bool) :
    ℕ → List UInt8 → Destination ℕ → Outcome Error (Destination ℕ) Unit
  | 0, _, _ => .hang
  | fuel + 1, np, wp =>
    if np = [] then .ok () wp
    else
      (Outcome.ofExcept (decodeNarrow suppressErrors np) wp).andThen fun (code, symbolSize) wp =>
      (Outcome.ofExcept (encodeWide sizeofWchar suppressErrors code) wp).andThen fun units wp =>
      toWstringLoop sizeofWchar suppressErrors fuel (np.drop symbolSize) (wp.put units 1)

/-- `string_internal_to_wstring`: the units go to `wp`, `none` for `NULL`. -/
def stringInternalToWstring (sizeofWchar : ℕ) (np : List UInt8) (wp : Option (List ℕ))
    (suppressErrors : Bool) : Outcome Error (Destination ℕ) Unit :=
  toWstringLoop sizeofWchar suppressErrors (np.length + 1) np ⟨wp, 0⟩

/-- Decode UTF-32 or UTF-16: the code of the first symbol, and how many units it has. -/
def decodeWide (sizeofWchar : ℕ) (suppressErrors : Bool) (wp : List ℕ) : Except Error (ℕ × ℕ) :=
  let wc := wp.getD 0 0
  let wp1 := wp.getD 1 0
  if sizeofWchar > 2 then .ok (wc, 1)
  else if ¬ (wc ≥ 0xD800 ∧ wc < 0xE000) then .ok (wc, 1)
  else if wc ≥ 0xD800 ∧ wc < 0xDC00 then
    if wp.length ≥ 2 ∧ wp1 ≥ 0xDC00 ∧ wp1 < 0xE000 then
      .ok ((((wc - 0xD800) <<< 10) ||| (wp1 - 0xDC00)) + 0x10000, 2)
    else
      .error (softError suppressErrors
        "wsize >= 2 && ((unsigned int)wp[1] >= 0xDC00 && (unsigned int)wp[1] < 0xE000)")
  else .error "Invalid UTF-16 symbol"

/-- Encode UTF-8: the bytes of a code. -/
def encodeNarrow (code : ℕ) : List UInt8 :=
  if code < 0x80 then [UInt8.ofNat code]
  else if code < 0x800 then
    [UInt8.ofNat (0xC0 ||| ((code >>> 6) &&& 0x1F)), UInt8.ofNat (0x80 ||| (code &&& 0x3F))]
  else if code < 0x10000 then
    [UInt8.ofNat (0xE0 ||| ((code >>> 12) &&& 0x0F)), UInt8.ofNat (0x80 ||| ((code >>> 6) &&& 0x3F)),
      UInt8.ofNat (0x80 ||| (code &&& 0x3F))]
  else
    [UInt8.ofNat (0xE0 ||| ((code >>> 18) &&& 0x07)), UInt8.ofNat (0x80 ||| ((code >>> 12) &&& 0x3F)),
      UInt8.ofNat (0x80 ||| ((code >>> 6) &&& 0x3F)), UInt8.ofNat (0x80 ||| (code &&& 0x3F))]

/-- `symbol_size` of a code in UTF-8 -/
def narrowSize (code : ℕ) : ℕ :=
  if code < 0x80 then 1 else if code < 0x800 then 2 else if code < 0x10000 then 3 else 4

/-- The loop of `string_internal_to_nstring`. -/
def toNstringLoop (sizeofWchar : ℕ) (suppressErrors : Bool) :
    ℕ → List ℕ → Destination UInt8 → Outcome Error (Destination UInt8) Unit
  | 0, _, _ => .hang
  | fuel + 1, wp, np =>
    if wp = [] then .ok () np
    else
      (Outcome.ofExcept (decodeWide sizeofWchar suppressErrors wp) np).andThen fun (code, symbolSize) np =>
      if code < 0x110000 then
        toNstringLoop sizeofWchar suppressErrors fuel (wp.drop symbolSize)
          (np.put (encodeNarrow code) (narrowSize code))
      else .error "code < 0x110000" np

/-- `string_internal_to_nstring`: the bytes go to `np`, `none` for `NULL`. -/
def stringInternalToNstring (sizeofWchar : ℕ) (wp : List ℕ) (np : Option (List UInt8))
    (suppressErrors : Bool) : Outcome Error (Destination UInt8) Unit :=
  toNstringLoop sizeofWchar suppressErrors (wp.length + 1) wp ⟨np, 0⟩

/-- `string_to_wstring` -/
def stringToWstring (sizeofWchar : ℕ) (np : List UInt8) (wp : Option (List ℕ)) :
    Outcome Error (Destination ℕ) Unit :=
  stringInternalToWstring sizeofWchar np wp false

/-- `string_to_nstring` -/
def stringToNstring (sizeofWchar : ℕ) (wp : List ℕ) (np : Option (List UInt8)) :
    Outcome Error (Destination UInt8) Unit :=
  stringInternalToNstring sizeofWchar wp np false

/-! ## Encoding -/

/-- The low bits of a number behind a mark that has none of them. -/
theorem mark_or :
    (∀ x < 64, 0x80 ||| x = x + 0x80) ∧ (∀ x < 32, 0xC0 ||| x = x + 0xC0) ∧
      (∀ x < 16, 0xE0 ||| x = x + 0xE0) ∧ ∀ x < 8, 0xE0 ||| x = x + 0xE0 := by
  decide

theorem and_ones (n : ℕ) : n &&& 0x3F = n % 64 ∧ n &&& 0x1F = n % 32 ∧ n &&& 0x0F = n % 16 ∧
    n &&& 0x07 = n % 8 :=
  ⟨Nat.and_two_pow_sub_one_eq_mod n 6, Nat.and_two_pow_sub_one_eq_mod n 5,
    Nat.and_two_pow_sub_one_eq_mod n 4, Nat.and_two_pow_sub_one_eq_mod n 3⟩

theorem continuation_byte (n : ℕ) : 0x80 ||| (n &&& 0x3F) = n % 64 + 0x80 := by
  rw [(and_ones n).1]
  exact mark_or.1 _ (Nat.mod_lt _ (by decide))

/-- What is counted is what is written. -/
theorem length_encodeNarrow (code : ℕ) : (encodeNarrow code).length = narrowSize code := by
  unfold encodeNarrow narrowSize
  split_ifs <;> rfl

/-- Up to three bytes, a symbol is encoded as it should be. -/
theorem encodeNarrow_char {c : Char} (h : c.toNat < 0x10000) :
    encodeNarrow c.toNat = String.utf8EncodeChar c := by
  unfold encodeNarrow
  simp only [continuation_byte, Nat.shiftRight_eq_div_pow]
  by_cases hone : c.toNat < 0x80
  · rw [if_pos hone, utf8EncodeChar_one hone]
  rw [if_neg hone]
  by_cases htwo : c.toNat < 0x800
  · rw [if_pos htwo, utf8EncodeChar_two (Nat.not_lt.mp hone) htwo, (and_ones _).2.1,
      mark_or.2.1 _ (Nat.mod_lt _ (by decide))]
  · rw [if_neg htwo, if_pos h, utf8EncodeChar_three (Nat.not_lt.mp htwo) h, (and_ones _).2.2.1,
      mark_or.2.2.1 _ (Nat.mod_lt _ (by decide))]

/-- A symbol of four bytes is marked as one of three. -/
theorem encodeNarrow_char_four {c : Char} (h : 0x10000 ≤ c.toNat) :
    (encodeNarrow c.toNat).length = (String.utf8EncodeChar c).length ∧
      encodeNarrow c.toNat ≠ String.utf8EncodeChar c := by
  unfold encodeNarrow
  rw [if_neg (by omega), if_neg (by omega), if_neg (by omega), utf8EncodeChar_four h]
  refine ⟨rfl, fun heq => ?_⟩
  have hlead := (List.cons.inj heq).1
  have hlt : c.toNat / 262144 % 8 < 8 := Nat.mod_lt _ (by decide)
  rw [(and_ones _).2.2.2, mark_or.2.2.2 _ (Nat.mod_lt _ (by decide)), Nat.shiftRight_eq_div_pow] at hlead
  have hnat := congrArg UInt8.toNat hlead
  rw [UInt8.toNat_ofNat', UInt8.toNat_ofNat', Nat.mod_eq_of_lt (by omega),
    Nat.mod_eq_of_lt (by omega)] at hnat
  omega

/-! ## Decoding -/

/-- A continuation byte, and what it carries. -/
theorem unsignedInt_continuation : ∀ x < 64, unsignedInt (UInt8.ofNat (x + 0x80)) &&& 0xC0 = 0x80 ∧
    unsignedInt (UInt8.ofNat (x + 0x80)) &&& 0x3F = x := by
  decide +kernel

theorem unsignedInt_one : ∀ x < 128, unsignedInt (UInt8.ofNat x) &&& 0x80 = 0 ∧
    unsignedInt (UInt8.ofNat x) = x := by
  decide +kernel

theorem unsignedInt_two : ∀ x < 32, unsignedInt (UInt8.ofNat (x + 0xC0)) &&& 0x80 ≠ 0 ∧
    unsignedInt (UInt8.ofNat (x + 0xC0)) &&& 0xE0 = 0xC0 ∧
    unsignedInt (UInt8.ofNat (x + 0xC0)) &&& 0x1F = x := by
  decide +kernel

theorem unsignedInt_three : ∀ x < 16, unsignedInt (UInt8.ofNat (x + 0xE0)) &&& 0x80 ≠ 0 ∧
    unsignedInt (UInt8.ofNat (x + 0xE0)) &&& 0xE0 ≠ 0xC0 ∧
    unsignedInt (UInt8.ofNat (x + 0xE0)) &&& 0xF0 = 0xE0 ∧
    unsignedInt (UInt8.ofNat (x + 0xE0)) &&& 0x0F = x := by
  decide +kernel

theorem unsignedInt_four : ∀ x < 8, unsignedInt (UInt8.ofNat (x + 0xF0)) &&& 0x80 ≠ 0 ∧
    unsignedInt (UInt8.ofNat (x + 0xF0)) &&& 0xE0 ≠ 0xC0 ∧
    unsignedInt (UInt8.ofNat (x + 0xF0)) &&& 0xF0 ≠ 0xE0 ∧
    unsignedInt (UInt8.ofNat (x + 0xF0)) &&& 0xF8 = 0xF0 ∧
    unsignedInt (UInt8.ofNat (x + 0xF0)) &&& 0x07 = x := by
  decide +kernel

/-- Six bits behind the bits of `a`. -/
theorem shift_or {a b : ℕ} (hb : b < 64) (k : ℕ) : (a <<< (k + 6)) ||| (b <<< k) = (a * 64 + b) <<< k := by
  rw [Nat.add_comm k 6, Nat.shiftLeft_add, ← Nat.shiftLeft_or_distrib, Nat.shiftLeft_eq a 6,
    Nat.mul_comm a, ← Nat.two_pow_add_eq_or_of_lt (show b < 2 ^ 6 from hb)]

section

variable (suppressErrors : Bool) (rest : List UInt8) {x y z t : ℕ}

theorem decodeNarrow_one (hx : x < 128) :
    decodeNarrow suppressErrors (UInt8.ofNat x :: rest) = .ok (x, 1) := by
  obtain ⟨hbit, hvalue⟩ := unsignedInt_one x hx
  unfold decodeNarrow
  simp only [List.getD_cons_zero]
  rw [if_pos hbit, hvalue]

theorem decodeNarrow_two (hx : x < 32) (hy : y < 64) :
    decodeNarrow suppressErrors (UInt8.ofNat (x + 0xC0) :: UInt8.ofNat (y + 0x80) :: rest)
      = .ok (x * 64 + y, 2) := by
  obtain ⟨hbit, hlead, hx'⟩ := unsignedInt_two x hx
  obtain ⟨hy1, hy'⟩ := unsignedInt_continuation y hy
  have hlength : (UInt8.ofNat (x + 0xC0) :: UInt8.ofNat (y + 0x80) :: rest).length ≥ 2 := by
    simp only [List.length_cons]
    omega
  have hcode : (x <<< 6) ||| y = x * 64 + y := shift_or hy 0
  unfold decodeNarrow
  simp only [List.getD_cons_zero, List.getD_cons_succ]
  rw [if_neg hbit, if_pos hlead, if_pos ⟨hlength, hy1⟩, hx', hy', hcode]

theorem decodeNarrow_three (hx : x < 16) (hy : y < 64) (hz : z < 64) :
    decodeNarrow suppressErrors
        (UInt8.ofNat (x + 0xE0) :: UInt8.ofNat (y + 0x80) :: UInt8.ofNat (z + 0x80) :: rest)
      = .ok ((x * 64 + y) * 64 + z, 3) := by
  obtain ⟨hbit, htwo, hlead, hx'⟩ := unsignedInt_three x hx
  obtain ⟨hy1, hy'⟩ := unsignedInt_continuation y hy
  obtain ⟨hz1, hz'⟩ := unsignedInt_continuation z hz
  have hlength : (UInt8.ofNat (x + 0xE0) :: UInt8.ofNat (y + 0x80) :: UInt8.ofNat (z + 0x80) ::
      rest).length ≥ 3 := by
    simp only [List.length_cons]
    omega
  have hcode : (x <<< 12) ||| (y <<< 6) ||| z = (x * 64 + y) * 64 + z := by
    rw [shift_or hy 6]
    exact shift_or hz 0
  unfold decodeNarrow
  simp only [List.getD_cons_zero, List.getD_cons_succ]
  rw [if_neg hbit, if_neg htwo, if_pos hlead, if_pos ⟨hlength, hy1, hz1⟩, hx', hy', hz', hcode]

theorem decodeNarrow_four (hx : x < 8) (hy : y < 64) (hz : z < 64) (ht : t < 64) :
    decodeNarrow suppressErrors (UInt8.ofNat (x + 0xF0) :: UInt8.ofNat (y + 0x80) ::
        UInt8.ofNat (z + 0x80) :: UInt8.ofNat (t + 0x80) :: rest)
      = .ok (((x * 64 + y) * 64 + z) * 64 + t, 4) := by
  obtain ⟨hbit, htwo, hthree, hlead, hx'⟩ := unsignedInt_four x hx
  obtain ⟨hy1, hy'⟩ := unsignedInt_continuation y hy
  obtain ⟨hz1, hz'⟩ := unsignedInt_continuation z hz
  obtain ⟨ht1, ht'⟩ := unsignedInt_continuation t ht
  have hlength : (UInt8.ofNat (x + 0xF0) :: UInt8.ofNat (y + 0x80) :: UInt8.ofNat (z + 0x80) ::
      UInt8.ofNat (t + 0x80) :: rest).length ≥ 4 := by
    simp only [List.length_cons]
    omega
  have hcode : (x <<< 18) ||| (y <<< 12) ||| (z <<< 6) ||| t = ((x * 64 + y) * 64 + z) * 64 + t := by
    rw [shift_or hy 12, shift_or hz 6]
    exact shift_or ht 0
  unfold decodeNarrow
  simp only [List.getD_cons_zero, List.getD_cons_succ]
  rw [if_neg hbit, if_neg htwo, if_neg hthree, if_pos hlead, if_pos ⟨hlength, hy1, hz1, ht1⟩, hx', hy',
    hz', ht', hcode]

/-- A code point of a character. -/
theorem codePoint_lt (c : Char) : c.toNat < 0x110000 := by
  rcases c.valid with hlow | ⟨-, hhigh⟩
  · exact Nat.lt_trans hlow (by decide)
  · exact hhigh

/-- The decoder reads every symbol of UTF-8, whatever follows it. -/
theorem decodeNarrow_char (c : Char) :
    decodeNarrow suppressErrors (String.utf8EncodeChar c ++ rest)
      = .ok (c.toNat, (String.utf8EncodeChar c).length) := by
  have hcode := codePoint_lt c
  by_cases hone : c.toNat < 0x80
  · rw [utf8EncodeChar_one hone]
    exact decodeNarrow_one suppressErrors rest hone
  by_cases htwo : c.toNat < 0x800
  · rw [utf8EncodeChar_two (Nat.not_lt.mp hone) htwo]
    refine (decodeNarrow_two suppressErrors rest (by omega) (by omega)).trans ?_
    rw [show c.toNat / 64 % 32 * 64 + c.toNat % 64 = c.toNat by omega]
    rfl
  by_cases hthree : c.toNat < 0x10000
  · rw [utf8EncodeChar_three (Nat.not_lt.mp htwo) hthree]
    refine (decodeNarrow_three suppressErrors rest (by omega) (by omega) (by omega)).trans ?_
    rw [show (c.toNat / 4096 % 16 * 64 + c.toNat / 64 % 64) * 64 + c.toNat % 64 = c.toNat by omega]
    rfl
  · rw [utf8EncodeChar_four (Nat.not_lt.mp hthree)]
    refine (decodeNarrow_four suppressErrors rest (by omega) (by omega) (by omega) (by omega)).trans ?_
    rw [show ((c.toNat / 262144 % 8 * 64 + c.toNat / 4096 % 64) * 64 + c.toNat / 64 % 64) * 64 +
      c.toNat % 64 = c.toNat by omega]
    rfl

end

/-! ## Whole texts, where `wchar_t` is wider than 16 bits -/

/-- The code points of a text. -/
def codePoints (cs : List Char) : List ℕ := cs.map Char.toNat

section

variable {sizeofWchar : ℕ} (hwide : 2 < sizeofWchar) (suppressErrors : Bool)

include hwide

/-- Decoding UTF-8 gives the text back. -/
theorem toWstringLoop_utf8 (cs : List Char) {fuel : ℕ} (hfuel : cs.length < fuel)
    (wp : Destination ℕ) :
    toWstringLoop sizeofWchar suppressErrors fuel (utf8 cs) wp
      = .ok () (wp.put (codePoints cs) cs.length) := by
  induction cs generalizing fuel wp with
  | nil =>
    obtain ⟨fuel, rfl⟩ : ∃ k, fuel = k + 1 := ⟨fuel - 1, by omega⟩
    obtain ⟨units, size⟩ := wp
    rw [toWstringLoop, utf8_nil, if_pos rfl]
    cases units <;> simp [Destination.put, codePoints]
  | cons c cs ih =>
    rw [List.length_cons] at hfuel
    obtain ⟨fuel, rfl⟩ : ∃ k, fuel = k + 1 := ⟨fuel - 1, by omega⟩
    have hne : utf8 (c :: cs) ≠ [] := fun hnil =>
      String.utf8EncodeChar_ne_nil (List.append_eq_nil_iff.mp hnil).1
    rw [toWstringLoop, if_neg hne, utf8_cons, decodeNarrow_char]
    simp only [Outcome.ofExcept_ok, Outcome.andThen_ok, encodeWide, if_pos hwide, List.drop_left]
    rw [ih (by omega)]
    obtain ⟨units, size⟩ := wp
    cases units <;>
      simp only [Destination.put, codePoints, List.map_cons, Option.map_some, Option.map_none,
        List.append_assoc, List.cons_append, List.nil_append, List.length_cons, Nat.add_assoc,
        Nat.add_comm 1]

/-- Encoding goes through the text code point by code point. -/
theorem toNstringLoop_codePoints (cs : List Char) {fuel : ℕ} (hfuel : cs.length < fuel)
    (np : Destination UInt8) :
    toNstringLoop sizeofWchar suppressErrors fuel (codePoints cs) np
      = .ok () (np.put ((codePoints cs).flatMap encodeNarrow)
          ((codePoints cs).flatMap encodeNarrow).length) := by
  induction cs generalizing fuel np with
  | nil =>
    obtain ⟨fuel, rfl⟩ : ∃ k, fuel = k + 1 := ⟨fuel - 1, by omega⟩
    obtain ⟨units, size⟩ := np
    rw [toNstringLoop, codePoints, List.map_nil, if_pos rfl]
    cases units <;> simp [Destination.put]
  | cons c cs ih =>
    rw [List.length_cons] at hfuel
    obtain ⟨fuel, rfl⟩ : ∃ k, fuel = k + 1 := ⟨fuel - 1, by omega⟩
    have hcons : codePoints (c :: cs) = c.toNat :: codePoints cs := rfl
    rw [toNstringLoop, hcons, if_neg (List.cons_ne_nil _ _)]
    simp only [decodeWide, if_pos hwide, Outcome.ofExcept_ok, Outcome.andThen_ok,
      List.getD_cons_zero, List.drop_succ_cons, List.drop_zero]
    rw [if_pos (codePoint_lt c), ih (by omega), List.flatMap_cons, List.length_append,
      length_encodeNarrow c.toNat]
    obtain ⟨units, size⟩ := np
    cases units <;>
      simp only [Destination.put, Option.map_some, Option.map_none, List.append_assoc, Nat.add_assoc]

end

/-- A text is converted to UTF-8 and back, and both measuring calls report the number of units. -/
structure Converts (sizeofWchar : ℕ) (cs : List Char) : Prop where
  narrow : stringToNstring sizeofWchar (codePoints cs) (some []) = .ok () ⟨some (utf8 cs), (utf8 cs).length⟩
  narrowSize : stringToNstring sizeofWchar (codePoints cs) none = .ok () ⟨none, (utf8 cs).length⟩
  wide : stringToWstring sizeofWchar (utf8 cs) (some [])
    = .ok () ⟨some (codePoints cs), (codePoints cs).length⟩
  wideSize : stringToWstring sizeofWchar (utf8 cs) none = .ok () ⟨none, (codePoints cs).length⟩

/-- Every character has a byte. -/
theorem length_le_utf8 (cs : List Char) : cs.length ≤ (utf8 cs).length := by
  induction cs with
  | nil => exact Nat.le_refl 0
  | cons c cs ih =>
    have hpos := List.length_pos_of_ne_nil (String.utf8EncodeChar_ne_nil (c := c))
    rw [utf8_cons, List.length_append, List.length_cons]
    omega

/-- `string_to_wstring` reads every text in UTF-8. -/
theorem stringToWstring_utf8 {sizeofWchar : ℕ} (hwide : 2 < sizeofWchar) (cs : List Char)
    (wp : Option (List ℕ)) :
    stringToWstring sizeofWchar (utf8 cs) wp
      = .ok () ⟨wp.map (· ++ codePoints cs), (codePoints cs).length⟩ := by
  have hlength : (codePoints cs).length = cs.length := List.length_map _
  have hfuel := length_le_utf8 cs
  rw [stringToWstring, stringInternalToWstring,
    toWstringLoop_utf8 hwide false cs (by omega), Destination.put, Nat.zero_add, hlength]

/-- `string_to_nstring` writes what `encodeNarrow` makes of the code points. -/
theorem stringToNstring_codePoints {sizeofWchar : ℕ} (hwide : 2 < sizeofWchar) (cs : List Char)
    (np : Option (List UInt8)) :
    stringToNstring sizeofWchar (codePoints cs) np
      = .ok () ⟨np.map (· ++ (codePoints cs).flatMap encodeNarrow),
          ((codePoints cs).flatMap encodeNarrow).length⟩ := by
  have hlength : (codePoints cs).length = cs.length := List.length_map _
  rw [stringToNstring, stringInternalToNstring,
    toNstringLoop_codePoints hwide false cs (by omega), Destination.put, Nat.zero_add]

/-- The bytes `encodeNarrow` makes of a text are UTF-8 if and only if no character needs four. -/
theorem encodeNarrow_utf8_iff (cs : List Char) :
    (codePoints cs).flatMap encodeNarrow = utf8 cs ↔ ∀ c ∈ cs, c.toNat < 0x10000 := by
  induction cs with
  | nil => exact iff_of_true rfl fun c hc => absurd hc List.not_mem_nil
  | cons c cs ih =>
    have hcons : (codePoints (c :: cs)).flatMap encodeNarrow
        = encodeNarrow c.toNat ++ (codePoints cs).flatMap encodeNarrow := rfl
    rw [hcons, utf8_cons, List.forall_mem_cons, ← ih]
    by_cases hc : c.toNat < 0x10000
    · rw [encodeNarrow_char hc, List.append_cancel_left_eq]
      exact (and_iff_right hc).symm
    · obtain ⟨hlength, hne⟩ := encodeNarrow_char_four (Nat.not_lt.mp hc)
      refine iff_of_false (fun heq => hne (List.append_inj_left heq hlength)) fun h => hc h.1

/-- Where `wchar_t` is wider than 16 bits, a text is converted to UTF-8 and back if and only if all of its
characters are in the basic plane. -/
theorem converts_iff {sizeofWchar : ℕ} (hwide : 2 < sizeofWchar) (cs : List Char) :
    Converts sizeofWchar cs ↔ ∀ c ∈ cs, c.toNat < 0x10000 := by
  rw [← encodeNarrow_utf8_iff]
  constructor
  · intro h
    have hnarrow := h.narrow
    rw [stringToNstring_codePoints hwide, Outcome.ok.injEq] at hnarrow
    have hunits := congrArg Destination.units hnarrow.2
    exact Option.some.inj hunits
  · intro heq
    refine ⟨?_, ?_, ?_, ?_⟩
    · rw [stringToNstring_codePoints hwide, heq]
      rfl
    · rw [stringToNstring_codePoints hwide, heq]
      rfl
    · exact stringToWstring_utf8 hwide cs (some [])
    · exact stringToWstring_utf8 hwide cs none

/-- Letters of one, two and three bytes. -/
theorem converts_euro : Converts 4 ['a', 'ü', '€'] := by
  refine (converts_iff (by decide) _).mpr ?_
  intro c hc
  simp only [List.mem_cons, List.not_mem_nil, or_false] at hc
  rcases hc with rfl | rfl | rfl <;> decide

/-- A face, which needs four bytes, gets the lead byte of three, and cannot be read back. -/
theorem converts_face :
    stringToNstring 4 (codePoints ['😀']) (some []) = .ok () ⟨some [0xE0, 0x9F, 0x98, 0x80], 4⟩ ∧
      utf8 ['😀'] = [0xF0, 0x9F, 0x98, 0x80] ∧
      stringToWstring 4 [0xE0, 0x9F, 0x98, 0x80] (some []) = .error "" ⟨some [0x7D8], 1⟩ ∧
      ¬ Converts 4 ['😀'] := by
  have hnarrow : stringToNstring 4 (codePoints ['😀']) (some [])
      = .ok () ⟨some [0xE0, 0x9F, 0x98, 0x80], 4⟩ := by
    decide +kernel
  refine ⟨hnarrow, by decide +kernel, by decide +kernel, fun h => ?_⟩
  have heq := h.narrow.symm.trans hnarrow
  revert heq
  decide +kernel

end Twinkleshine
