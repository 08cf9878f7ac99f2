import Mathlib.Data.List.Basic
import Mathlib.Tactic.Common

/-!
# UTF-8 as lists of bytes

`utf8 cs` are the bytes of the characters `cs`, one after the other. The encoding of a character is the
one of the core library; here it is given by ranges of the code, and two texts with the same bytes are
the same.
-/

namespace Library

/-- The bytes of a text. -/
def utf8 (cs : List Char) : List UInt8 := cs.flatMap String.utf8EncodeChar

variable {c : Char} {cs ds : List Char}

@[simp] theorem utf8_nil : utf8 [] = [] := rfl

@[simp] theorem utf8_cons (c : Char) (cs : List Char) :
    utf8 (c :: cs) = String.utf8EncodeChar c ++ utf8 cs := rfl

/-- The bytes tell which text it is. -/
theorem utf8_inj (h : utf8 cs = utf8 ds) : cs = ds := by
  have hbytes : cs.utf8Encode = ds.utf8Encode := congrArg List.toByteArray h
  rw [← String.toByteArray_ofList, ← String.toByteArray_ofList, String.toByteArray_inj] at hbytes
  exact String.ofList_inj.mp hbytes

/-- The bytes of a text are valid UTF-8. -/
theorem utf8_valid (cs : List Char) : (utf8 cs).toByteArray.IsValidUTF8 := ByteArray.isValidUTF8_utf8Encode

/-! ## One character -/

theorem utf8EncodeChar_one (h : c.toNat < 0x80) : String.utf8EncodeChar c = [UInt8.ofNat c.toNat] :=
  if_pos (show c.val.toNat ≤ 0x7f from Nat.le_of_lt_succ h)

theorem utf8EncodeChar_two (hlow : 0x80 ≤ c.toNat) (h : c.toNat < 0x800) :
    String.utf8EncodeChar c
      = [UInt8.ofNat (c.toNat / 64 % 32 + 0xc0), UInt8.ofNat (c.toNat % 64 + 0x80)] :=
  (if_neg (show ¬ c.val.toNat ≤ 0x7f from Nat.not_le.mpr hlow)).trans
    (if_pos (show c.val.toNat ≤ 0x7ff from Nat.le_of_lt_succ h))

theorem utf8EncodeChar_three (hlow : 0x800 ≤ c.toNat) (h : c.toNat < 0x10000) :
    String.utf8EncodeChar c
      = [UInt8.ofNat (c.toNat / 4096 % 16 + 0xe0), UInt8.ofNat (c.toNat / 64 % 64 + 0x80),
          UInt8.ofNat (c.toNat % 64 + 0x80)] :=
  (if_neg (show ¬ c.val.toNat ≤ 0x7f from Nat.not_le.mpr (Nat.le_trans (by decide) hlow))).trans
    ((if_neg (show ¬ c.val.toNat ≤ 0x7ff from Nat.not_le.mpr hlow)).trans
      (if_pos (show c.val.toNat ≤ 0xffff from Nat.le_of_lt_succ h)))

theorem utf8EncodeChar_four (hlow : 0x10000 ≤ c.toNat) :
    String.utf8EncodeChar c
      = [UInt8.ofNat (c.toNat / 262144 % 8 + 0xf0), UInt8.ofNat (c.toNat / 4096 % 64 + 0x80),
          UInt8.ofNat (c.toNat / 64 % 64 + 0x80), UInt8.ofNat (c.toNat % 64 + 0x80)] :=
  (if_neg (show ¬ c.val.toNat ≤ 0x7f from Nat.not_le.mpr (Nat.le_trans (by decide) hlow))).trans
    ((if_neg (show ¬ c.val.toNat ≤ 0x7ff from
        Nat.not_le.mpr (Nat.le_trans (by decide) hlow))).trans
      (if_neg (show ¬ c.val.toNat ≤ 0xffff from Nat.not_le.mpr hlow)))

end Library
