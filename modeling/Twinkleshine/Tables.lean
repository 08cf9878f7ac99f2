import Twinkleshine.Constants

/-!
# Character classes

Reference: `include/tables.h`, `source/tables.c`.
-/

namespace Twinkleshine

/-! ## `enum CharacterMap` -/

def cmSpace : UInt8 := 1
def cmNewline : UInt8 := 2
def cmMethod : UInt8 := 4
def cmResource : UInt8 := 8
def cmProtocol : UInt8 := 16
def cmName : UInt8 := 32
def cmValue : UInt8 := 64
def cmDomain : UInt8 := 128

/-- `character_map[c] |= flag` for the characters of a string. -/
def markString (characters : String) (flag : UInt8) (characterMap : UInt8 → UInt8) : UInt8 → UInt8 :=
  fun c => if c ∈ ascii characters then characterMap c ||| flag else characterMap c

/-- `for (c = first; c <= last; c++) character_map[c] |= flag` -/
def markRange (first last : UInt8) (flag : UInt8) (characterMap : UInt8 → UInt8) : UInt8 → UInt8 :=
  fun c => if first ≤ c && c ≤ last then characterMap c ||| flag else characterMap c

/-- The letters and digits, marked one loop after the other. -/
def markAlphanumeric (flag : UInt8) (characterMap : UInt8 → UInt8) : UInt8 → UInt8 :=
  markRange 48 57 flag (markRange 97 122 flag (markRange 65 90 flag characterMap))

/-- `character_map` as `tables_module_initialize` leaves it. -/
def characterMap : UInt8 → UInt8 :=
  let map := fun _ => 0
  let map := markString " \t\x0b" cmSpace map
  let map := markString "\n\r" cmNewline map
  let map := markString "!#$%&'*+-.^_'|~" cmMethod (markAlphanumeric cmMethod map)
  let map := markRange 33 126 cmResource map -- all visible ASCII
  let map := markString "HTTP/1.0" cmProtocol map
  let map := markString "!#$%&'*+-.^_'|~" cmName (markAlphanumeric cmName map)
  let map := markRange 32 126 cmValue map -- all visible ASCII and space
  markString "-." cmDomain (markAlphanumeric cmDomain map)

/-- `(character_map[c] & flag) != 0` -/
def isClass (flag c : UInt8) : Bool := characterMap c &&& flag != 0

/-! ## Which classes exclude each other -/

/-- Masking distributes over marking. -/
theorem or_and_right (a b mask : UInt8) : (a ||| b) &&& mask = a &&& mask ||| b &&& mask := by
  refine UInt8.toBitVec_inj.mp (BitVec.eq_of_getLsbD_eq fun i _ => ?_)
  simp only [UInt8.toBitVec_and, UInt8.toBitVec_or, BitVec.getLsbD_and, BitVec.getLsbD_or,
    Bool.and_or_distrib_right]

section

variable {flag flag' : UInt8} {map : UInt8 → UInt8} {c : UInt8}

/-- Marking a class leaves the others alone. -/
theorem markString_and (h : flag &&& flag' = 0) (characters : String) :
    markString characters flag map c &&& flag' = map c &&& flag' := by
  rw [markString]
  split_ifs
  · rw [or_and_right, h, UInt8.or_zero]
  · rfl

theorem markRange_and (h : flag &&& flag' = 0) (first last : UInt8) :
    markRange first last flag map c &&& flag' = map c &&& flag' := by
  rw [markRange]
  split_ifs
  · rw [or_and_right, h, UInt8.or_zero]
  · rfl

theorem markAlphanumeric_and (h : flag &&& flag' = 0) :
    markAlphanumeric flag map c &&& flag' = map c &&& flag' := by
  rw [markAlphanumeric, markRange_and h, markRange_and h, markRange_and h]

end

/-- The spaces are space, tab and vertical tab. -/
theorem isClass_space_iff {c : UInt8} : isClass cmSpace c = true ↔ c = 32 ∨ c = 9 ∨ c = 11 := by
  have hmap : characterMap c &&& cmSpace
      = markString " \t\x0b" cmSpace (fun _ => 0) c &&& cmSpace := by
    rw [characterMap, markString_and (by decide), markAlphanumeric_and (by decide),
      markRange_and (by decide), markString_and (by decide), markAlphanumeric_and (by decide),
      markString_and (by decide), markRange_and (by decide), markString_and (by decide),
      markAlphanumeric_and (by decide), markString_and (by decide)]
  have hascii : ascii " \t\x0b" = [32, 9, 11] := by decide
  rw [isClass, hmap, markString, hascii]
  split_ifs with hc
  · simpa [cmSpace] using hc
  · simpa [cmSpace] using hc

/-- The newlines are line feed and carriage return. -/
theorem isClass_newline_iff {c : UInt8} : isClass cmNewline c = true ↔ c = 10 ∨ c = 13 := by
  have hmap : characterMap c &&& cmNewline
      = markString "\n\r" cmNewline (markString " \t\x0b" cmSpace fun _ => 0) c &&& cmNewline := by
    rw [characterMap, markString_and (by decide), markAlphanumeric_and (by decide),
      markRange_and (by decide), markString_and (by decide), markAlphanumeric_and (by decide),
      markString_and (by decide), markRange_and (by decide), markString_and (by decide),
      markAlphanumeric_and (by decide)]
  have hascii : ascii "\n\r" = [10, 13] := by decide
  rw [isClass, hmap, markString, hascii]
  split_ifs with hc
  · rw [or_and_right, markString_and (by decide)]
    simpa [cmNewline] using hc
  · rw [markString_and (by decide)]
    simpa using hc

/-- No token character is a space. -/
theorem not_space_of_class {flag c : UInt8}
    (hflag : flag = cmMethod ∨ flag = cmResource ∨ flag = cmProtocol ∨ flag = cmName)
    (hc : isClass flag c = true) : isClass cmSpace c = false := by
  rw [← Bool.not_eq_true, isClass_space_iff]
  rintro (rfl | rfl | rfl) <;> obtain rfl | rfl | rfl | rfl := hflag <;> revert hc <;> decide

end Twinkleshine
