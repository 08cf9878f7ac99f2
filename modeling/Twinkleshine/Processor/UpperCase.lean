import Twinkleshine.Constants
import Twinkleshine.Library.Utf8

/-!
# Capital letters

Reference: `processor_generic_upper_case` in `source/processor/generic.c`.

Headings are turned into capitals in place, byte by byte; `byte0` is meant to remember the first byte of
a letter of two bytes. The tests for a first byte and for a continuation byte are the wrong way round:
`byte0` only ever holds continuation bytes, and no letter of two bytes is found.
-/

namespace Twinkleshine

open Library

/-! ## The loop -/

/-- The bytes and `byte0` after one round of the loop, at `p`. -/
def upperCaseStep (s : List UInt8 × UInt8) (p : ℕ) : List UInt8 × UInt8 :=
  let (text, byte0) := s
  let c := text.getD p 0
  if c &&& 0x80 = 0x00 then
    -- ASCII
    (if c ≥ 97 ∧ c ≤ 122 then text.set p (c - (97 - 65)) else text, 0)
  else if c &&& 0xE0 = 0xC0 then
    -- "continuation byte"
    (if byte0 = 0xC3 then
      -- Latin 1
      if c ≥ 0xA0 ∧ c ≠ 0xB7 ∧ c ≠ 0xBF then text.set p (c - 0x20) else text
    else if byte0 = 0xD0 then
      -- Cyrillic
      if c ≥ 0xB0 then text.set p (c - 0x20) else text
    else if byte0 = 0xD1 then
      if c ≤ 0x8F then (text.set p (c + 0x20)).set (p - 1) 0xD0
      else if c ≤ 0x9F then (text.set p (c - 0x10)).set (p - 1) 0xD0
      else text.set p (c &&& 0xFE)
    else if byte0 = 0xD2 then text.set p (c &&& 0xFE)
    else if byte0 = 0xD3 then
      if c ≥ 0x81 ∧ c ≤ 0x8E ∧ c % 2 = 0 then text.set p (c - 0x01)
      else if c = 0x8F then text.set p 0x80
      else if c ≥ 0x90 then text.set p (c &&& 0xFE)
      else text
    else text, 0)
  else if c &&& 0xC0 = 0x80 then
    -- "first byte of two"
    (text, c)
  else
    -- first byte of three or four
    (text, 0)

/-- The loop, for `n` bytes from `first` on. -/
def upperCaseTo (text : List UInt8) (first n : ℕ) : List UInt8 × UInt8 :=
  (List.range' first n).foldl upperCaseStep (text, 0)

/-- `processor_generic_upper_case`, on the text of the string. -/
def processorGenericUpperCase (text : List UInt8) (oldStringSize prefixSize suffixSize : ℕ) :
    List UInt8 :=
  let first := oldStringSize + prefixSize
  (upperCaseTo text first (text.length - suffixSize - first)).1

/-! ## What it does to bytes -/

/-- The capital of an ASCII letter. -/
def upperByte (c : UInt8) : UInt8 := if c ≥ 97 ∧ c ≤ 122 then c - (97 - 65) else c

/-- Bytes that are not ASCII stay as they are. -/
theorem upperByte_of_high {c : UInt8} (hc : c &&& 0x80 ≠ 0x00) : upperByte c = c :=
  forall_byte (fun c => c &&& 0x80 ≠ 0x00 → upperByte c = c) (by decide +kernel) c hc

/-- One round changes an ASCII letter; a byte that is not the first of a letter, which has the bit `0x40`
clear, is all that is remembered. -/
theorem upperCaseStep_eq {text : List UInt8} {byte0 : UInt8} (hbyte0 : byte0 &&& 0x40 = 0) {p : ℕ}
    (hp : p < text.length) :
    (upperCaseStep (text, byte0) p).1 = text.set p (upperByte (text.getD p 0)) ∧
      (upperCaseStep (text, byte0) p).2 &&& 0x40 = 0 := by
  have hlead : byte0 ≠ 0xC3 ∧ byte0 ≠ 0xD0 ∧ byte0 ≠ 0xD1 ∧ byte0 ≠ 0xD2 ∧ byte0 ≠ 0xD3 := by
    refine ⟨?_, ?_, ?_, ?_, ?_⟩ <;>
    · rintro rfl
      exact absurd hbyte0 (by decide)
  obtain ⟨hC3, hD0, hD1, hD2, hD3⟩ := hlead
  have hzero : (0 : UInt8) &&& 0x40 = 0 := by decide
  have hkeep : text.set p (text.getD p 0) = text := by
    rw [List.getD_eq_getElem?_getD, List.getElem?_eq_getElem hp]
    exact List.set_getElem_self hp
  unfold upperCaseStep
  dsimp only
  generalize text.getD p 0 = c at hkeep ⊢
  by_cases hascii : c &&& 0x80 = 0x00
  · rw [if_pos hascii, upperByte]
    refine ⟨?_, hzero⟩
    dsimp only
    split_ifs
    · rfl
    · exact hkeep.symm
  rw [if_neg hascii, upperByte_of_high hascii, hkeep, if_neg hC3, if_neg hD0, if_neg hD1, if_neg hD2,
    if_neg hD3]
  by_cases hfirst : c &&& 0xE0 = 0xC0
  · rw [if_pos hfirst]
    exact ⟨rfl, hzero⟩
  rw [if_neg hfirst]
  by_cases hcontinuation : c &&& 0xC0 = 0x80
  · rw [if_pos hcontinuation]
    have hclear : c &&& 0xC0 = 0x80 → c &&& 0x40 = 0 :=
      forall_byte (fun c => c &&& 0xC0 = 0x80 → c &&& 0x40 = 0) (by decide +kernel) c
    exact ⟨rfl, hclear hcontinuation⟩
  · rw [if_neg hcontinuation]
    exact ⟨rfl, hzero⟩

/-- The loop turns the ASCII letters of its segment into capitals. -/
theorem upperCaseTo_eq (before segment after : List UInt8) :
    (upperCaseTo (before ++ segment ++ after) before.length segment.length).1
      = before ++ segment.map upperByte ++ after := by
  have hloop : ∀ (done segment : List UInt8) (byte0 : UInt8), byte0 &&& 0x40 = 0 →
      ((List.range' done.length segment.length).foldl upperCaseStep
        (done ++ segment ++ after, byte0)).1 = done ++ segment.map upperByte ++ after := by
    intro done segment
    induction segment generalizing done with
    | nil => exact fun _ _ => rfl
    | cons c segment ih =>
      intro byte0 hbyte0
      have hp : done.length < (done ++ c :: segment ++ after).length := by
        simp only [List.length_append, List.length_cons]
        omega
      have hget : (done ++ c :: segment ++ after).getD done.length 0 = c := by
        rw [List.append_assoc, List.getD_eq_getElem?_getD,
          List.getElem?_append_right (Nat.le_refl _), Nat.sub_self]
        rfl
      obtain ⟨htext, hnext⟩ := upperCaseStep_eq hbyte0 hp
      rw [hget, List.append_assoc, List.set_append_right _ _ (Nat.le_refl _), Nat.sub_self,
        List.cons_append, List.set_cons_zero] at htext
      have hpair : upperCaseStep (done ++ c :: segment ++ after, byte0) done.length
          = ((done ++ [upperByte c]) ++ segment ++ after,
            (upperCaseStep (done ++ c :: segment ++ after, byte0) done.length).2) := by
        refine Prod.ext ?_ rfl
        rw [List.append_assoc, List.cons_append, htext]
        simp only [List.append_assoc, List.cons_append, List.nil_append]
      have hlength : done.length + 1 = (done ++ [upperByte c]).length := by
        rw [List.length_append, List.length_singleton]
      rw [List.length_cons, List.range'_succ, List.foldl_cons, hpair, hlength, ih _ _ hnext,
        List.map_cons]
      simp only [List.append_assoc, List.cons_append, List.nil_append]
  exact hloop before segment 0 rfl

theorem processorGenericUpperCase_eq {before segment after : List UInt8} {oldStringSize prefixSize : ℕ}
    (hbefore : before.length = oldStringSize + prefixSize) :
    processorGenericUpperCase (before ++ segment ++ after) oldStringSize prefixSize after.length
      = before ++ segment.map upperByte ++ after := by
  have hsize : (before ++ segment ++ after).length - after.length - (oldStringSize + prefixSize)
      = segment.length := by
    simp only [List.length_append]
    omega
  rw [processorGenericUpperCase, hsize, ← hbefore]
  exact upperCaseTo_eq before segment after

example : processorGenericUpperCase (ascii "old> A page <\n") 4 2 2 = ascii "old> A PAGE <\n" := by decide

/-! ## What it does to letters -/

/-- An ASCII letter. -/
def IsLowerAscii (c : Char) : Prop := 0x61 ≤ c.toNat ∧ c.toNat ≤ 0x7A

/-- A letter of two bytes that has a capital: of Latin 1, or Cyrillic. -/
def IsLowerBeyondAscii (c : Char) : Prop :=
  0xE0 ≤ c.toNat ∧ c.toNat ≤ 0xFE ∧ c.toNat ≠ 0xF7 ∨ 0x430 ≤ c.toNat ∧ c.toNat ≤ 0x45F

instance (c : Char) : Decidable (IsLowerAscii c) := inferInstanceAs (Decidable (_ ∧ _))

instance (c : Char) : Decidable (IsLowerBeyondAscii c) := inferInstanceAs (Decidable (_ ∨ _))

/-- The capital of a letter, and any other character itself. -/
def capital (c : Char) : Char :=
  if IsLowerAscii c then Char.ofNat (c.toNat - 0x20)
  else if IsLowerBeyondAscii c then
    if c.toNat ≤ 0x44F then Char.ofNat (c.toNat - 0x20) else Char.ofNat (c.toNat - 0x50)
  else c

/-- What the loop makes of a character. -/
def asciiCapital (c : Char) : Char := if IsLowerAscii c then Char.ofNat (c.toNat - 0x20) else c

theorem toNat_ofNat_of_lt {n : ℕ} (h : n < 0xD800) : (Char.ofNat n).toNat = n := by
  have hvalid : n.isValidChar := .inl h
  rw [Char.ofNat, dif_pos hvalid]
  rfl

/-- The bytes of a character that are not ASCII are not letters. -/
theorem upperByte_ofNat {n : ℕ} (hlow : 0x80 ≤ n) (h : n < 256) :
    upperByte (UInt8.ofNat n) = UInt8.ofNat n := by
  have hn : (UInt8.ofNat n).toNat = n := by
    rw [UInt8.toNat_ofNat', Nat.mod_eq_of_lt h]
  rw [upperByte, if_neg]
  rintro ⟨-, hhigh⟩
  rw [UInt8.le_iff_toNat_le, hn] at hhigh
  exact absurd hhigh (Nat.not_le.mpr (Nat.lt_of_lt_of_le (by decide) hlow))

/-- The loop acts on characters. -/
theorem map_upperByte_char (c : Char) :
    (String.utf8EncodeChar c).map upperByte = String.utf8EncodeChar (asciiCapital c) := by
  by_cases hascii : c.toNat < 0x80
  · have hbyte : (UInt8.ofNat c.toNat).toNat = c.toNat := by
      rw [UInt8.toNat_ofNat', Nat.mod_eq_of_lt (show c.toNat < 2 ^ 8 by omega)]
    have hletter : UInt8.ofNat c.toNat ≥ 97 ∧ UInt8.ofNat c.toNat ≤ 122 ↔ IsLowerAscii c := by
      rw [ge_iff_le, UInt8.le_iff_toNat_le, UInt8.le_iff_toNat_le, hbyte]
      exact Iff.rfl
    rw [utf8EncodeChar_one hascii, List.map_singleton, upperByte, asciiCapital]
    by_cases hlower : IsLowerAscii c
    · have hcode : (Char.ofNat (c.toNat - 0x20)).toNat = c.toNat - 0x20 :=
        toNat_ofNat_of_lt (by omega)
      obtain ⟨hlow, hhigh⟩ := hlower
      rw [if_pos (hletter.mpr ⟨hlow, hhigh⟩), if_pos ⟨hlow, hhigh⟩,
        utf8EncodeChar_one (by omega), hcode]
      refine congrArg ([·]) (UInt8.toNat_inj.mp ?_)
      have hshift : ((97 : UInt8) - 65).toNat = 0x20 := rfl
      have hle : (97 : UInt8) - 65 ≤ UInt8.ofNat c.toNat := by
        rw [UInt8.le_iff_toNat_le, hbyte, hshift]
        omega
      rw [UInt8.toNat_sub_of_le _ _ hle, hbyte, hshift, UInt8.toNat_ofNat',
        Nat.mod_eq_of_lt (show c.toNat - 0x20 < 2 ^ 8 by omega)]
    · rw [if_neg (mt hletter.mp hlower), if_neg hlower, utf8EncodeChar_one hascii]
  -- the bytes of a longer character are no letters
  have hsame : asciiCapital c = c := if_neg fun hlower => hascii (Nat.lt_of_le_of_lt hlower.2 (by decide))
  rw [hsame]
  by_cases htwo : c.toNat < 0x800
  · rw [utf8EncodeChar_two (by omega) htwo]
    simp only [List.map_cons, List.map_nil]
    rw [upperByte_ofNat (by omega) (by omega), upperByte_ofNat (by omega) (by omega)]
  by_cases hthree : c.toNat < 0x10000
  · rw [utf8EncodeChar_three (by omega) hthree]
    simp only [List.map_cons, List.map_nil]
    rw [upperByte_ofNat (by omega) (by omega), upperByte_ofNat (by omega) (by omega),
      upperByte_ofNat (by omega) (by omega)]
  · rw [utf8EncodeChar_four (by omega)]
    simp only [List.map_cons, List.map_nil]
    rw [upperByte_ofNat (by omega) (by omega), upperByte_ofNat (by omega) (by omega),
      upperByte_ofNat (by omega) (by omega), upperByte_ofNat (by omega) (by omega)]

theorem map_upperByte_utf8 (cs : List Char) :
    (utf8 cs).map upperByte = utf8 (cs.map asciiCapital) := by
  induction cs with
  | nil => rfl
  | cons c cs ih => rw [utf8_cons, List.map_append, map_upperByte_char, ih, List.map_cons, utf8_cons]

/-- Both capitals are the same where a letter is ASCII. -/
theorem capital_eq_asciiCapital (c : Char) :
    capital c = asciiCapital c ↔ ¬ IsLowerBeyondAscii c := by
  unfold capital asciiCapital
  by_cases hascii : IsLowerAscii c
  · rw [if_pos hascii, if_pos hascii]
    refine iff_of_true rfl ?_
    unfold IsLowerAscii IsLowerBeyondAscii at *
    omega
  rw [if_neg hascii, if_neg hascii]
  by_cases hlower : IsLowerBeyondAscii c
  · rw [if_pos hlower]
    refine iff_of_false ?_ (not_not_intro hlower)
    unfold IsLowerBeyondAscii at hlower
    -- the code of a capital is smaller
    have hsmaller : ∀ n, 0 < n → n ≤ c.toNat → c.toNat < 0x800 → Char.ofNat (c.toNat - n) ≠ c := by
      intro n hpos hle hlt heq
      have hcode := congrArg Char.toNat heq
      rw [toNat_ofNat_of_lt (by omega)] at hcode
      omega
    split_ifs
    · exact hsmaller 0x20 (by decide) (by omega) (by omega)
    · exact hsmaller 0x50 (by decide) (by omega) (by omega)
  · rw [if_neg hlower]
    exact iff_of_true rfl hlower

/-- A text became a text of as many bytes, valid, and in capitals. -/
structure UpperCased (cs : List Char) (result : List UInt8) : Prop where
  length : result.length = (utf8 cs).length
  valid : result.toByteArray.IsValidUTF8
  capitals : result = utf8 (cs.map capital)

theorem processorGenericUpperCase_utf8 (cs : List Char) {before after : List UInt8}
    {oldStringSize prefixSize : ℕ} (hbefore : before.length = oldStringSize + prefixSize) :
    processorGenericUpperCase (before ++ utf8 cs ++ after) oldStringSize prefixSize after.length
      = before ++ utf8 (cs.map asciiCapital) ++ after := by
  rw [processorGenericUpperCase_eq hbefore, map_upperByte_utf8]

/-- Between what is before and after it, a text is turned into capitals if and only if all its letters that
have a capital are ASCII. -/
theorem upperCased_iff {cs : List Char} {before after : List UInt8} {oldStringSize prefixSize : ℕ}
    (hbefore : before.length = oldStringSize + prefixSize) :
    (∃ result, processorGenericUpperCase (before ++ utf8 cs ++ after) oldStringSize prefixSize after.length
        = before ++ result ++ after ∧ UpperCased cs result) ↔
      ∀ c ∈ cs, ¬ IsLowerBeyondAscii c := by
  rw [processorGenericUpperCase_utf8 cs hbefore]
  have hlength : (utf8 (cs.map asciiCapital)).length = (utf8 cs).length := by
    rw [← map_upperByte_utf8, List.length_map]
  constructor
  · rintro ⟨result, heq, -, -, hcapitals⟩
    have hresult : utf8 (cs.map asciiCapital) = result :=
      List.append_cancel_left (List.append_cancel_right heq)
    have hmap : cs.map capital = cs.map asciiCapital := (utf8_inj (hresult.trans hcapitals)).symm
    intro c hc
    exact (capital_eq_asciiCapital c).mp (List.map_inj_left.mp hmap c hc)
  · intro hnone
    have hmap : cs.map capital = cs.map asciiCapital :=
      List.map_inj_left.mpr fun c hc => (capital_eq_asciiCapital c).mpr (hnone c hc)
    exact ⟨_, rfl, hlength, utf8_valid _, congrArg utf8 hmap.symm⟩

/-- The length and the validity of a text are kept in any case. -/
theorem processorGenericUpperCase_valid (cs : List Char) {before after : List UInt8}
    {oldStringSize prefixSize : ℕ} (hbefore : before.length = oldStringSize + prefixSize) :
    ∃ ds, processorGenericUpperCase (before ++ utf8 cs ++ after) oldStringSize prefixSize after.length
      = before ++ utf8 ds ++ after ∧ (utf8 ds).length = (utf8 cs).length := by
  refine ⟨_, processorGenericUpperCase_utf8 cs hbefore, ?_⟩
  rw [← map_upperByte_utf8, List.length_map]

/-- A heading in ASCII. -/
theorem upperCased_ascii : ∃ result,
    processorGenericUpperCase (ascii "O " ++ utf8 ['a', 'B'] ++ ascii " O") 0 2 2
      = ascii "O " ++ result ++ ascii " O" ∧ UpperCased ['a', 'B'] result := by
  refine (@upperCased_iff ['a', 'B'] (ascii "O ") (ascii " O") 0 2 rfl).mpr ?_
  intro c hc
  simp only [List.mem_cons, List.not_mem_nil, or_false] at hc
  rcases hc with rfl | rfl <;> decide

/-- A heading that begins with a letter of Latin 1 keeps it. -/
theorem upperCase_umlaut :
    processorGenericUpperCase (utf8 ['ü', 'b', 'e', 'r']) 0 0 0 = utf8 ['ü', 'B', 'E', 'R'] ∧
      capital 'ü' = 'Ü' ∧
      ¬ UpperCased ['ü', 'b', 'e', 'r'] (processorGenericUpperCase (utf8 ['ü', 'b', 'e', 'r']) 0 0 0) := by
  have hresult : processorGenericUpperCase (utf8 ['ü', 'b', 'e', 'r']) 0 0 0 = utf8 ['ü', 'B', 'E', 'R'] :=
    by decide +kernel
  refine ⟨hresult, by decide, fun h => ?_⟩
  have hcapitals := utf8_inj (hresult.symm.trans h.capitals)
  revert hcapitals
  decide

end Twinkleshine
