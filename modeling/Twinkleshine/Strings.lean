import Twinkleshine.Buffer
import Twinkleshine.Library.Transition
import Mathlib.Data.List.DropRight

/-!
# Strings

Reference: `string_*` in `commonlib/source/string.c`, `commonlib/include/string.h`.

A string keeps a null terminator at the end. Every access of its block is checked here: an operation
that touches a byte outside the block stops with `StringFault.outside`.
-/

namespace Twinkleshine

open Library

/-! ## Accesses -/

/-- Why an operation stops: a check of its own failed, or it touches a byte outside the block. -/
inductive StringFault where
  | failed (reason : Error)
  | outside
deriving DecidableEq, Repr

namespace CharBuffer

/-- `ZERO_INIT` -/
def zero : CharBuffer := ⟨[], 0, 0⟩

/-- Writing `bs` at the position `i` of the block. -/
def write (string : CharBuffer) (i : ℕ) (bs : List UInt8) : Outcome StringFault CharBuffer Unit :=
  if i + bs.length ≤ string.p.length then .ok () { string with p := memcpy string.p i bs }
  else .error .outside string

/-- `memmove` between two positions of the block. -/
def move (string : CharBuffer) (destination source size : ℕ) :
    Outcome StringFault CharBuffer Unit :=
  if source + size ≤ string.p.length ∧ destination + size ≤ string.p.length then
    .ok () { string with p := memmove string.p destination source size }
  else .error .outside string

end CharBuffer

/-! ## Operations -/

/-- `string_zero` -/
def stringZero (string : CharBuffer) : Outcome StringFault CharBuffer Unit :=
  (if string.p = [] then .ok () string else string.write 0 [0]).andThen fun _ string =>
  .ok () { string with size := 0 }

/-- `string_resize` with the write of the terminator checked. -/
def stringResizeWithin (string : CharBuffer) (size : ℕ) (realloc : Realloc) :
    Outcome StringFault CharBuffer Unit :=
  ((stringGrow string (sizeAdd size 1) realloc).mapError .failed).andThen fun _ string =>
  CharBuffer.write { string with size := size } size [0]

/-- `string_reserve` -/
def stringReserve (string : CharBuffer) (capacity : ℕ) (realloc : Realloc) :
    Outcome StringFault CharBuffer Unit :=
  (stringGrow string (sizeAdd capacity 1) realloc).mapError .failed

/-- `string_copy_mem` -/
def stringCopyMem (string : CharBuffer) (other : List UInt8) (realloc : Realloc) :
    Outcome StringFault CharBuffer Unit :=
  (stringResizeWithin string other.length realloc).andThen fun _ string =>
  string.write 0 other

/-- The block of `string_push` that gets a larger block of memory. -/
def stringPushGrow (string : CharBuffer) (realloc : Realloc) :
    Outcome StringFault CharBuffer Unit :=
  if sizeAdd string.size 2 > string.capacity then
    let newCapacity := if string.capacity = 0 then 1 else string.capacity * 2 % sizeModulus
    match countRealloc realloc string.p newCapacity with
    | none => .error (.failed "new_p != NULL") string
    | some newP => .ok () { string with capacity := newCapacity, p := newP }
  else .ok () string

/-- `string_push` -/
def stringPush (string : CharBuffer) (other : UInt8) (realloc : Realloc) :
    Outcome StringFault CharBuffer Unit :=
  (stringPushGrow string realloc).andThen fun _ string =>
  (string.write string.size [other]).andThen fun _ string =>
  CharBuffer.write { string with size := sizeAdd string.size 1 } (sizeAdd string.size 1) [0]

/-- `string_append_mem` -/
def stringAppendMem (string : CharBuffer) (other : List UInt8) (realloc : Realloc) :
    Outcome StringFault CharBuffer Unit :=
  let oldSize := string.size
  (stringResizeWithin string (sizeAdd string.size other.length) realloc).andThen fun _ string =>
  string.write oldSize other

/-- What `string_trim` takes for a space. -/
def isTrimmed (c : UInt8) : Bool := c == 32 || c == 9 || c == 10 || c == 13 || c == 11

/-- `string_trim` -/
def stringTrim (string : CharBuffer) : Outcome StringFault CharBuffer Unit :=
  let beginningSpaces := (string.text.takeWhile isTrimmed).length
  -- the string is all spaces
  if beginningSpaces = string.size then stringZero string
  else
    let endingSpaces := (string.text.rtakeWhile isTrimmed).length
    let spaces := beginningSpaces + endingSpaces
    (if beginningSpaces > 0 then string.move 0 beginningSpaces (sizeSub string.size spaces)
      else .ok () string).andThen fun _ string =>
    CharBuffer.write { string with size := sizeSub string.size spaces }
      (sizeSub string.size spaces) [0]

/-- `string_remove` -/
def stringRemove (string : CharBuffer) (begin size : ℕ) : Outcome StringFault CharBuffer Unit :=
  if sizeAdd begin size < string.size then
    (string.move begin (begin + size)
      (sizeAdd (sizeSub (sizeSub string.size begin) size) 1)).andThen fun _ string =>
    .ok () { string with size := sizeSub string.size size }
  else .error (.failed "begin + size < string->size") string

/-! ## Strings that hold a text -/

/-- The representation of a string: unallocated and empty, or with a terminator in the block. -/
structure CharBuffer.IsString (string : CharBuffer) : Prop where
  length_p : string.p.length = string.capacity
  terminated : string.size = 0 ∧ string.capacity = 0 ∨
    string.size + 1 ≤ string.capacity ∧ string.p[string.size]? = some 0

/-- An allocated string that holds `text`, with what lies in the block behind the terminator. -/
structure CharBuffer.Holds (string : CharBuffer) (text rest : List UInt8) : Prop where
  capacity_eq : string.capacity = string.p.length
  size_eq : string.size = text.length
  p_eq : string.p = text ++ 0 :: rest

namespace CharBuffer

variable {string : CharBuffer} {text rest : List UInt8}

theorem isString_zero : zero.IsString := ⟨rfl, .inl ⟨rfl, rfl⟩⟩

theorem Holds.text_eq (h : string.Holds text rest) : string.text = text := by
  rw [CharBuffer.text, h.size_eq, h.p_eq, List.take_left]

theorem Holds.isString (h : string.Holds text rest) : string.IsString := by
  refine ⟨h.capacity_eq.symm, .inr ⟨?_, ?_⟩⟩
  · rw [h.capacity_eq, h.p_eq, h.size_eq, List.length_append, List.length_cons]
    omega
  · rw [h.p_eq, h.size_eq, List.getElem?_append_right le_rfl, Nat.sub_self]
    rfl

/-- A string without a block is the zero string; one with a block holds its text. -/
theorem IsString.cases (h : string.IsString) :
    string = zero ∨ ∃ rest, string.Holds string.text rest := by
  obtain ⟨hsize, hcapacity⟩ | ⟨hlt, hzero⟩ := h.terminated
  · left
    have hp : string.p = [] := List.length_eq_zero_iff.mp (h.length_p.trans hcapacity)
    obtain ⟨p, size, capacity⟩ := string
    dsimp only at hsize hcapacity hp
    rw [hsize, hcapacity, hp, zero]
  · right
    obtain ⟨hsize, hget⟩ := List.getElem?_eq_some_iff.mp hzero
    refine ⟨string.p.drop (string.size + 1), h.length_p.symm, ?_, ?_⟩
    · rw [CharBuffer.text, List.length_take]
      omega
    · rw [CharBuffer.text, ← hget, ← List.drop_eq_getElem_cons hsize, List.take_append_drop]

theorem IsString.length_text (h : string.IsString) : string.text.length = string.size := by
  rw [CharBuffer.text, List.length_take, h.length_p]
  obtain ⟨hsize, -⟩ | ⟨hlt, -⟩ := h.terminated
  · omega
  · omega

theorem write_of_le {i : ℕ} {bs : List UInt8} (h : i + bs.length ≤ string.p.length) :
    string.write i bs = .ok () { string with p := overwrite string.p i bs } := if_pos h

end CharBuffer

/-! ## Growing -/

/-- The capacities a string of capacity `capacity` may get to hold `needed` bytes. -/
def doublings (capacity needed : ℕ) : Set ℕ :=
  {m | needed ≤ m ∧ ∃ k, m = (if capacity = 0 then 1 else capacity) * 2 ^ k}

/-- A block that grows begins with the old one, and has the least doubling as its length. -/
theorem stringGrow_granted {string : CharBuffer} (hp : string.p.length = string.capacity)
    {needed : ℕ} (hneeded : needed ≤ 2 ^ 63) (hpos : 0 < needed) (junk : ℕ → UInt8) :
    ∃ grown, stringGrow string needed (some junk) =
        .ok () ⟨string.p ++ grown, string.size, (string.p ++ grown).length⟩ ∧
      IsLeast (doublings string.capacity needed) (string.p ++ grown).length ∧
      (string.p = [] → (string.p ++ grown)[0]? = some (junk 0)) := by
  unfold stringGrow
  obtain ⟨m, hleast, heq⟩ := growCapacity_isLeast 66 63
    (show 0 < if string.capacity = 0 then 1 else string.capacity by split_ifs <;> omega)
    hneeded (by split_ifs <;> omega) (by omega)
  -- the new bytes are those of the allocation, and the old ones stay in front
  by_cases hgrow : needed > string.capacity
  · have hm := hleast.1.1
    have hnew : string.p ++ (List.range (m - string.p.length)).map junk
        = string.p.take m ++ (List.range (m - string.p.length)).map junk := by
      rw [List.take_of_length_le (by omega)]
    have hlength : (string.p ++ (List.range (m - string.p.length)).map junk).length = m := by
      rw [List.length_append, List.length_map, List.length_range]
      omega
    refine ⟨(List.range (m - string.p.length)).map junk, ?_, ?_, ?_⟩
    · rw [if_pos hgrow, heq, hlength, hnew]
      rfl
    · rw [hlength]
      exact hleast
    · intro hnil
      rw [hnil, List.nil_append, List.getElem?_map, List.length_nil, List.getElem?_range (by omega)]
      rfl
  · refine ⟨[], ?_, ?_, ?_⟩
    · rw [if_neg hgrow, List.append_nil, hp]
    · rw [List.append_nil, hp]
      refine ⟨⟨by omega, 0, by split_ifs <;> omega⟩, ?_⟩
      rintro n ⟨-, k, rfl⟩
      split_ifs
      · omega
      · exact Nat.le_mul_of_pos_right _ (by positivity)
    · intro hnil
      rw [hnil] at hp
      have : string.p.length = 0 := by rw [hnil]; rfl
      exact absurd hgrow (by rw [← hp]; simp; omega)

/-- A resized string holds what the block held there. -/
theorem stringResizeWithin_granted {string : CharBuffer} (hp : string.p.length = string.capacity)
    {size : ℕ} (hsize : size < 2 ^ 63) (junk : ℕ → UInt8) :
    ∃ t grown, stringResizeWithin string size (some junk) = .ok () t ∧
      IsLeast (doublings string.capacity (size + 1)) t.capacity ∧
      t.Holds ((string.p ++ grown).take size) ((string.p ++ grown).drop (size + 1)) ∧
      t.p.length = (string.p ++ grown).length := by
  have hneeded : sizeAdd size 1 = size + 1 := sizeAdd_eq (by omega)
  obtain ⟨grown, hgrow, hleast, -⟩ :=
    stringGrow_granted hp (show size + 1 ≤ 2 ^ 63 by omega) (by omega) junk
  have hle : size + 1 ≤ (string.p ++ grown).length := hleast.1.1
  have hfit : size + [(0 : UInt8)].length ≤ (string.p ++ grown).length := hle
  have hlength := length_overwrite hfit
  refine ⟨⟨overwrite (string.p ++ grown) size [0], size, (string.p ++ grown).length⟩, grown, ?_,
    hleast, ⟨hlength.symm, ?_, ?_⟩, hlength⟩
  · rw [stringResizeWithin, hneeded, hgrow, Outcome.mapError_ok, Outcome.andThen_ok,
      CharBuffer.write_of_le hfit]
  · rw [List.length_take]
    exact (Nat.min_eq_left (Nat.le_of_succ_le hle)).symm
  · rw [overwrite, List.append_assoc]
    rfl

/-- The checked resize is the unchecked one. -/
theorem stringResizeWithin_eq {string : CharBuffer} (hp : string.p.length = string.capacity)
    {size : ℕ} (hsize : size < 2 ^ 63) (realloc : Realloc) :
    stringResizeWithin string size realloc = (stringResize string size realloc).mapError .failed := by
  have hgrow := stringGrow_spec hp (show sizeAdd size 1 ≤ 2 ^ 63 by rw [sizeAdd_eq] <;> omega) realloc
  rw [stringResizeWithin, stringResize]
  generalize stringGrow string (sizeAdd size 1) realloc = grown at hgrow ⊢
  cases grown with
  | ok u t =>
    obtain ⟨hlength, hcapacity, -⟩ := hgrow
    rw [sizeAdd_eq (by omega)] at hcapacity
    exact CharBuffer.write_of_le (by rw [hlength]; exact hcapacity)
  | error e t => rfl
  | hang => exact hgrow.elim

/-! ## What an operation does to the text -/

section

variable {string : CharBuffer}

/-- The text behind which a larger block goes on. -/
theorem CharBuffer.IsString.take_append (h : string.IsString) (grown : List UInt8) (size : ℕ) :
    (string.p ++ grown).take (string.size + size)
      = string.text ++ ((string.p ++ grown).drop string.size).take size := by
  have hsize : string.size ≤ string.p.length := by
    have := h.length_text
    rw [CharBuffer.text, List.length_take] at this
    omega
  rw [List.take_add, List.take_append_of_le_length hsize, CharBuffer.text]

theorem stringZero_holds (h : string.IsString) :
    ∃ t, stringZero string = .ok () t ∧ t.IsString ∧ t.text = [] := by
  obtain rfl | ⟨rest, hrest⟩ := h.cases
  · exact ⟨CharBuffer.zero, rfl, CharBuffer.isString_zero, rfl⟩
  · have hp : string.p ≠ [] := by
      rw [hrest.p_eq]
      exact List.append_ne_nil_of_right_ne_nil _ (List.cons_ne_nil _ _)
    have hfit : 0 + [(0 : UInt8)].length ≤ string.p.length := List.length_pos_of_ne_nil hp
    have hholds : CharBuffer.Holds ⟨overwrite string.p 0 [0], 0, string.capacity⟩ []
        (string.p.drop 1) := by
      refine ⟨?_, rfl, rfl⟩
      rw [length_overwrite hfit, hrest.capacity_eq]
    refine ⟨_, ?_, hholds.isString, hholds.text_eq⟩
    rw [stringZero, if_neg hp, CharBuffer.write_of_le hfit, Outcome.andThen_ok]

theorem stringResizeWithin_holds (h : string.IsString) {size : ℕ} (hsize : size < 2 ^ 62)
    (junk : ℕ → UInt8) :
    ∃ t front rest, stringResizeWithin string size (some junk) = .ok () t ∧ t.Holds front rest ∧
      front.length = size ∧ front.take string.size = string.text.take size := by
  obtain ⟨t, grown, heq, hleast, ht, hlength⟩ :=
    stringResizeWithin_granted h.length_p (show size < 2 ^ 63 by omega) junk
  have hcapacity := hleast.1.1
  rw [ht.capacity_eq, hlength] at hcapacity
  refine ⟨t, _, _, heq, ht, ?_, ?_⟩
  · rw [List.length_take]
    omega
  · have htext := h.take_append grown 0
    rw [Nat.add_zero, List.take_zero, List.append_nil] at htext
    rw [List.take_take, Nat.min_comm, ← List.take_take, htext]

theorem stringCopyMem_holds (h : string.IsString) {other : List UInt8}
    (hother : other.length < 2 ^ 62) (junk : ℕ → UInt8) :
    ∃ t rest, stringCopyMem string other (some junk) = .ok () t ∧ t.Holds other rest := by
  obtain ⟨t, front, rest, heq, ht, hfront, -⟩ := stringResizeWithin_holds h hother junk
  have hfit : 0 + other.length ≤ t.p.length := by
    rw [ht.p_eq, List.length_append]
    omega
  refine ⟨{ t with p := overwrite t.p 0 other }, rest, ?_, ?_, ?_, ?_⟩
  · rw [stringCopyMem, heq, Outcome.andThen_ok, CharBuffer.write_of_le hfit]
  · rw [length_overwrite hfit]
    exact ht.capacity_eq
  · exact ht.size_eq.trans hfront
  · rw [ht.p_eq]
    exact overwrite_middle (a := []) hfront.symm

theorem stringAppendMem_holds (h : string.IsString) {other : List UInt8}
    (hother : string.size + other.length < 2 ^ 62) (junk : ℕ → UInt8) :
    ∃ t rest, stringAppendMem string other (some junk) = .ok () t ∧
      t.Holds (string.text ++ other) rest := by
  have hsize : sizeAdd string.size other.length = string.size + other.length :=
    sizeAdd_eq (by omega)
  obtain ⟨t, grown, heq, hleast, ht, hlength⟩ := stringResizeWithin_granted h.length_p
    (show string.size + other.length < 2 ^ 63 by omega) junk
  have hcapacity := hleast.1.1
  rw [ht.capacity_eq, hlength] at hcapacity
  generalize (string.p ++ grown).drop (string.size + other.length + 1) = rest at ht
  have htsize := ht.size_eq
  have htp := ht.p_eq
  rw [h.take_append] at htsize htp
  have hmiddle : other.length = (((string.p ++ grown).drop string.size).take other.length).length := by
    rw [List.length_take, List.length_drop]
    omega
  have hfit : string.size + other.length ≤ t.p.length := by omega
  refine ⟨{ t with p := overwrite t.p string.size other }, rest, ?_, ?_, ?_, ?_⟩
  · rw [stringAppendMem, hsize, heq, Outcome.andThen_ok, CharBuffer.write_of_le hfit]
  · rw [length_overwrite hfit]
    exact ht.capacity_eq
  · rw [List.length_append, ← hmiddle] at htsize
    rw [List.length_append]
    exact htsize
  · calc overwrite t.p string.size other
        = overwrite (string.text ++ (((string.p ++ grown).drop string.size).take other.length
            ++ 0 :: rest)) string.text.length other := by
          rw [htp, h.length_text, List.append_assoc]
      _ = string.text ++ other ++ 0 :: rest := by
          rw [overwrite_middle hmiddle, List.append_assoc]

/-- A string with a block has room for one more character after growing. -/
theorem stringPushGrow_granted {text rest : List UInt8} (h : string.Holds text rest)
    (hsize : string.size + 1 < 2 ^ 62) (junk : ℕ → UInt8) :
    ∃ t c behind, stringPushGrow string (some junk) = .ok () t ∧ t.capacity = t.p.length ∧
      t.size = string.size ∧ t.p = text ++ ([0, c] ++ behind) := by
  have hadd : sizeAdd string.size 2 = string.size + 2 := sizeAdd_eq (by omega)
  have hcapacity : string.capacity = text.length + (rest.length + 1) := by
    rw [h.capacity_eq, h.p_eq, List.length_append, List.length_cons]
  have hlength := h.size_eq
  unfold stringPushGrow
  by_cases hgrow : sizeAdd string.size 2 > string.capacity
  · have hrest : rest = [] := by
      rw [hadd] at hgrow
      exact List.length_eq_zero_iff.mp (by omega)
    rw [hrest, List.length_nil] at hcapacity
    have hnew : string.capacity * 2 % sizeModulus = string.capacity * 2 :=
      Nat.mod_eq_of_lt (by simp only [sizeModulus]; omega)
    have hrange : string.capacity * 2 - string.p.length = text.length + 1 := by
      rw [← h.capacity_eq]
      omega
    refine ⟨⟨string.p ++ (List.range (text.length + 1)).map junk, string.size,
      string.capacity * 2⟩, junk 0, ((List.range text.length).map Nat.succ).map junk, ?_, ?_, rfl, ?_⟩
    · rw [if_pos hgrow]
      dsimp only
      rw [if_neg (by omega), hnew, countRealloc, Option.map_some, hrange,
        List.take_of_length_le (by rw [← h.capacity_eq]; omega)]
    · dsimp only
      rw [List.length_append, ← h.capacity_eq, List.length_map, List.length_range]
      omega
    · rw [h.p_eq, hrest, List.range_succ_eq_map, List.map_cons, List.append_assoc]
      rfl
  · rw [hadd] at hgrow
    obtain ⟨c, behind, rfl⟩ := List.exists_cons_of_length_pos (show 0 < rest.length by omega)
    refine ⟨string, c, behind, ?_, h.capacity_eq, rfl, h.p_eq⟩
    rw [if_neg (by omega)]

theorem stringPush_holds {text rest : List UInt8} (h : string.Holds text rest)
    (hsize : string.size + 1 < 2 ^ 62) (other : UInt8) (junk : ℕ → UInt8) :
    ∃ t rest, stringPush string other (some junk) = .ok () t ∧ t.Holds (text ++ [other]) rest := by
  obtain ⟨t, c, behind, heq, hcapacity, htsize, htp⟩ := stringPushGrow_granted h hsize junk
  have hadd : sizeAdd t.size 1 = t.size + 1 := sizeAdd_eq (by omega)
  have hlength := h.size_eq
  have hfit : t.size + ([other] ++ [0]).length ≤ t.p.length := by
    rw [htp, List.length_append, List.length_append, htsize, hlength]
    simp
  have hfst : t.size + [other].length ≤ t.p.length := Nat.le_of_succ_le hfit
  have hsnd : t.size + 1 + [(0 : UInt8)].length ≤ (overwrite t.p t.size [other]).length := by
    rw [length_overwrite hfst]
    exact hfit
  refine ⟨⟨overwrite t.p t.size ([other] ++ [0]), t.size + 1, t.capacity⟩, behind, ?_, ?_, ?_, ?_⟩
  · rw [stringPush, heq, Outcome.andThen_ok, CharBuffer.write_of_le hfst, Outcome.andThen_ok, hadd,
      CharBuffer.write_of_le hsnd, ← overwrite_append hfit]
    rfl
  · rw [length_overwrite hfit]
    exact hcapacity
  · rw [List.length_append, List.length_singleton, ← hlength, ← htsize]
  · have hmiddle : ([other] ++ [0]).length = [0, c].length := rfl
    dsimp only
    rw [htp, htsize, hlength, overwrite_middle hmiddle, List.append_assoc, List.append_assoc]
    rfl

/-- Pushing to the zero string writes the terminator behind its block of one byte. -/
theorem stringPush_zero (other : UInt8) (junk : ℕ → UInt8) :
    ∃ t, stringPush .zero other (some junk) = .error .outside t := ⟨⟨[other], 1, 1⟩, rfl⟩

/-- Reserving for the zero string gives it a block with no terminator in it. -/
theorem stringReserve_zero {capacity : ℕ} (hcapacity : capacity < 2 ^ 62) (junk : ℕ → UInt8) :
    ∃ t, stringReserve .zero capacity (some junk) = .ok () t ∧ t.p.length = t.capacity ∧
      0 < t.capacity ∧ t.size = 0 ∧ t.p[0]? = some (junk 0) := by
  have hneeded : sizeAdd capacity 1 = capacity + 1 := sizeAdd_eq (by omega)
  obtain ⟨grown, heq, hleast, hjunk⟩ := stringGrow_granted (CharBuffer.isString_zero).length_p
    (show capacity + 1 ≤ 2 ^ 63 by omega) (by omega) junk
  refine ⟨⟨[] ++ grown, 0, ([] ++ grown).length⟩, ?_, rfl, ?_, rfl, hjunk rfl⟩
  · rw [stringReserve, hneeded, heq, Outcome.mapError_ok]
    rfl
  · exact Nat.lt_of_lt_of_le (Nat.succ_pos _) hleast.1.1

theorem stringReserve_holds {text rest : List UInt8} (h : string.Holds text rest) {capacity : ℕ}
    (hcapacity : capacity < 2 ^ 62) (junk : ℕ → UInt8) :
    ∃ t rest, stringReserve string capacity (some junk) = .ok () t ∧ t.Holds text rest := by
  have hneeded : sizeAdd capacity 1 = capacity + 1 := sizeAdd_eq (by omega)
  obtain ⟨grown, heq, -, -⟩ := stringGrow_granted h.isString.length_p
    (show capacity + 1 ≤ 2 ^ 63 by omega) (by omega) junk
  refine ⟨⟨string.p ++ grown, string.size, (string.p ++ grown).length⟩, rest ++ grown, ?_, rfl,
    h.size_eq, ?_⟩
  · rw [stringReserve, hneeded, heq, Outcome.mapError_ok]
  · dsimp only
    rw [h.p_eq, List.append_assoc, List.cons_append]

/-- A text that is not all spaces, cut into the spaces around it and the rest. -/
theorem trimmed_split {text : List UInt8} (h : (text.takeWhile isTrimmed).length ≠ text.length) :
    text = text.takeWhile isTrimmed ++
      ((text.dropWhile isTrimmed).rdropWhile isTrimmed ++ text.rtakeWhile isTrimmed) := by
  have hne : text.dropWhile isTrimmed ≠ [] := by
    intro hnil
    have hsplit := List.takeWhile_append_dropWhile (p := isTrimmed) (l := text)
    rw [hnil, List.append_nil] at hsplit
    exact h (congrArg List.length hsplit)
  have hlast : ((text.dropWhile isTrimmed).reverse.takeWhile isTrimmed).length
      ≠ (text.dropWhile isTrimmed).reverse.length := by
    intro hall
    have hself := (List.takeWhile_prefix isTrimmed).eq_of_length hall
    have hhead := List.head_dropWhile_not isTrimmed hne
    have hmem : (text.dropWhile isTrimmed).head hne ∈ (text.dropWhile isTrimmed).reverse :=
      List.mem_reverse.mpr (List.head_mem hne)
    rw [List.takeWhile_eq_self_iff.mp hself _ hmem] at hhead
    exact absurd hhead (by simp)
  have hbehind : text.rtakeWhile isTrimmed = (text.dropWhile isTrimmed).rtakeWhile isTrimmed := by
    conv_lhs => rw [← List.takeWhile_append_dropWhile (p := isTrimmed) (l := text)]
    rw [List.rtakeWhile, List.reverse_append, List.takeWhile_append, if_neg hlast, List.rtakeWhile]
  rw [hbehind, List.rdropWhile_append_rtakeWhile, List.takeWhile_append_dropWhile]

theorem stringTrim_holds (h : string.IsString) (hsize : string.size < 2 ^ 62) :
    ∃ t, stringTrim string = .ok () t ∧ t.IsString ∧
      t.text = (string.text.dropWhile isTrimmed).rdropWhile isTrimmed := by
  have hlength := h.length_text
  by_cases hall : (string.text.takeWhile isTrimmed).length = string.size
  · -- nothing but spaces
    obtain ⟨t, heq, ht, htext⟩ := stringZero_holds h
    refine ⟨t, ?_, ht, ?_⟩
    · rw [stringTrim, if_pos hall, heq]
    · have hdrop : string.text.dropWhile isTrimmed = [] := by
        have hsplit := congrArg List.length
          (List.takeWhile_append_dropWhile (p := isTrimmed) (l := string.text))
        rw [List.length_append] at hsplit
        exact List.length_eq_zero_iff.mp (by omega)
      rw [htext, hdrop]
      rfl
  · have hsplit := trimmed_split (hlength ▸ hall)
    obtain rfl | ⟨rest, hrest⟩ := h.cases
    · exact absurd rfl hall
    generalize hlead : string.text.takeWhile isTrimmed = lead at hall hsplit
    generalize (string.text.dropWhile isTrimmed).rdropWhile isTrimmed = core at hsplit ⊢
    generalize htrail : string.text.rtakeWhile isTrimmed = trail at hsplit
    have hp := hrest.p_eq
    rw [hsplit] at hp hlength
    rw [List.length_append, List.length_append] at hlength
    have hcore : sizeSub string.size (lead.length + trail.length) = core.length := by
      rw [sizeSub_eq (by omega) (by omega)]
      omega
    -- the bytes between the spaces move to the front
    have hmoved : ∃ t c behind, (if lead.length > 0 then
          string.move 0 lead.length (sizeSub string.size (lead.length + trail.length))
        else .ok () string) = .ok () t ∧ t.capacity = t.p.length ∧ t.size = string.size ∧
        t.p = core ++ ([c] ++ behind) := by
      by_cases hpos : lead.length > 0
      · have hread : (string.p.drop lead.length).take core.length = core := by
          rw [hp, List.append_assoc, List.drop_left, List.append_assoc, List.take_left]
        have hplength : string.p.length = lead.length + (core.length + (trail.length + (rest.length + 1))) := by
          rw [hp]
          simp only [List.length_append, List.length_cons]
          omega
        have hfit : 0 + core.length ≤ string.p.length := by omega
        obtain ⟨c, behind, hbehind⟩ : ∃ c behind, string.p.drop core.length = [c] ++ behind :=
          List.exists_cons_of_length_pos (by rw [List.length_drop]; omega)
        refine ⟨{ string with p := overwrite string.p 0 core }, c, behind, ?_, ?_, rfl, ?_⟩
        · rw [if_pos hpos, hcore, CharBuffer.move, if_pos ⟨by omega, by omega⟩, memmove, memcpy, hread]
        · rw [length_overwrite hfit]
          exact hrest.capacity_eq
        · rw [overwrite, Nat.zero_add, hbehind]
          rfl
      · have hnil : lead = [] := List.length_eq_zero_iff.mp (by omega)
        obtain ⟨c, behind, hbehind⟩ : ∃ c behind, trail ++ 0 :: rest = [c] ++ behind :=
          List.exists_cons_of_length_pos (by rw [List.length_append, List.length_cons]; omega)
        refine ⟨string, c, behind, if_neg hpos, hrest.capacity_eq, rfl, ?_⟩
        rw [hp, hnil, List.nil_append, List.append_assoc, hbehind]
    obtain ⟨t, c, behind, heq, hcapacity, htsize, htp⟩ := hmoved
    -- the terminator is written behind them
    have hmiddle : [(0 : UInt8)].length = [c].length := rfl
    have hfit : core.length + [(0 : UInt8)].length ≤ t.p.length := by
      rw [htp, List.length_append, List.length_append]
      simp
    have hholds : CharBuffer.Holds ⟨overwrite t.p core.length [0], core.length, t.capacity⟩ core
        behind := by
      refine ⟨?_, rfl, ?_⟩
      · rw [length_overwrite hfit]
        exact hcapacity
      · dsimp only
        rw [htp, overwrite_middle hmiddle]
        rfl
    refine ⟨_, ?_, hholds.isString, hholds.text_eq⟩
    rw [stringTrim, hlead, htrail, if_neg hall]
    dsimp only
    rw [heq, Outcome.andThen_ok, htsize, hcore]
    exact CharBuffer.write_of_le hfit

theorem stringRemove_holds (h : string.IsString) (hsize : string.size < 2 ^ 62) {begin size : ℕ}
    (hcheck : begin + size < string.size) :
    ∃ t rest, stringRemove string begin size = .ok () t ∧
      t.Holds (string.text.take begin ++ string.text.drop (begin + size)) rest := by
  have hlength := h.length_text
  obtain rfl | ⟨rest, hrest⟩ := h.cases
  · exact absurd hcheck (Nat.not_lt_zero _)
  have hp := hrest.p_eq
  have hplength : string.p.length = string.size + (rest.length + 1) := by
    rw [hp, List.length_append, List.length_cons, hlength]
  have hmove : sizeAdd (sizeSub (sizeSub string.size begin) size) 1
      = string.size - begin - size + 1 := by
    rw [sizeSub_eq (b := begin) (by omega) (by omega), sizeSub_eq (by omega) (by omega),
      sizeAdd_eq (by omega)]
  -- the tail moves together with its terminator
  have hread : (string.p.drop (begin + size)).take (string.size - begin - size + 1)
      = string.text.drop (begin + size) ++ [0] := by
    have htail : (string.text.drop (begin + size)).length = string.size - begin - size := by
      rw [List.length_drop]
      omega
    rw [hp, List.drop_append_of_le_length (by omega), List.take_append, htail,
      List.take_of_length_le (by omega), Nat.add_sub_cancel_left]
    rfl
  have hreadlength : (string.text.drop (begin + size) ++ [(0 : UInt8)]).length
      = string.size - begin - size + 1 := by
    rw [List.length_append, List.length_drop, hlength, List.length_singleton]
    omega
  have hfit : begin + (string.text.drop (begin + size) ++ [(0 : UInt8)]).length
      ≤ string.p.length := by omega
  refine ⟨⟨overwrite string.p begin (string.text.drop (begin + size) ++ [0]), string.size - size,
    string.capacity⟩, string.p.drop (begin + (string.size - begin - size + 1)), ?_, ?_, ?_, ?_⟩
  · rw [stringRemove, sizeAdd_eq (by omega), if_pos hcheck, hmove, CharBuffer.move,
      if_pos ⟨by omega, by omega⟩, Outcome.andThen_ok, memmove, memcpy, hread]
    dsimp only
    rw [sizeSub_eq (by omega) (by omega)]
  · rw [length_overwrite hfit]
    exact hrest.capacity_eq
  · dsimp only
    rw [List.length_append, List.length_take, List.length_drop, hlength]
    omega
  · have hfront : string.p.take begin = string.text.take begin := by
      rw [hp, List.take_append_of_le_length (by omega)]
    dsimp only
    rw [overwrite, hfront, hreadlength, List.append_assoc, List.append_assoc, List.append_assoc]
    rfl

end

/-! ## Runs -/

/-- A call of a string operation, with what the block granted to it contains. -/
inductive StringOp where
  | zero
  | resize (size : ℕ) (junk : ℕ → UInt8)
  | reserve (capacity : ℕ) (junk : ℕ → UInt8)
  | copyMem (other : List UInt8) (junk : ℕ → UInt8)
  | push (other : UInt8) (junk : ℕ → UInt8)
  | appendMem (other : List UInt8) (junk : ℕ → UInt8)
  | trim
  | remove (begin size : ℕ)

namespace StringOp

/-- The call on a string. -/
def run (string : CharBuffer) : StringOp → Outcome StringFault CharBuffer Unit
  | zero => stringZero string
  | resize size junk => stringResizeWithin string size (some junk)
  | reserve capacity junk => stringReserve string capacity (some junk)
  | copyMem other junk => stringCopyMem string other (some junk)
  | push other junk => stringPush string other (some junk)
  | appendMem other junk => stringAppendMem string other (some junk)
  | trim => stringTrim string
  | remove begin size => stringRemove string begin size

/-- The sizes a call is given, and those it would reach, are below `2 ^ 62`. -/
def InRange (string : CharBuffer) : StringOp → Prop
  | zero | trim => True
  | resize size _ | reserve size _ => size < 2 ^ 62
  | copyMem other _ => other.length < 2 ^ 62
  | push _ _ => string.size + 1 < 2 ^ 62
  | appendMem other _ => string.size + other.length < 2 ^ 62
  | remove begin size => begin < 2 ^ 62 ∧ size < 2 ^ 62

/-- The list operation a call stands for. -/
def Follows (text text' : List UInt8) : StringOp → Prop
  | zero => text' = []
  | resize size _ => text'.length = size ∧ text'.take text.length = text.take size
  | reserve _ _ => text' = text
  | copyMem other _ => text' = other
  | push other _ => text' = text ++ [other]
  | appendMem other _ => text' = text ++ other
  | trim => text' = (text.dropWhile isTrimmed).rdropWhile isTrimmed
  | remove begin size => text' = text.take begin ++ text.drop (begin + size)

/-- The calls whose own check fails. -/
def Refused (text : List UInt8) : StringOp → Prop
  | remove begin size => text.length ≤ begin + size
  | _ => False

/-- The call follows the list operation and leaves a string, or fails and leaves the string as it
was; it touches nothing outside the block. -/
def Fine (string : CharBuffer) (op : StringOp) : Prop :=
  (op.run string).Ensures (fun _ t => t.IsString ∧ op.Follows string.text t.text)
    fun e t => t = string ∧ (∃ reason, e = .failed reason) ∧ op.Refused string.text

/-- The calls that leave a terminator: a string without a block is not pushed to, and if one is
reserved for it, it begins with a zero byte by chance. -/
def Terminates (string : CharBuffer) : StringOp → Prop
  | push _ _ => string.capacity ≠ 0
  | reserve _ junk => string.capacity ≠ 0 ∨ junk 0 = 0
  | _ => True

end StringOp

theorem CharBuffer.Holds.fine {string t : CharBuffer} {text rest : List UInt8} {op : StringOp}
    (ht : t.Holds text rest) (heq : op.run string = .ok () t)
    (hfollows : op.Follows string.text text) : op.Fine string := by
  rw [StringOp.Fine, heq]
  exact ⟨ht.isString, by rwa [ht.text_eq]⟩

theorem stringPush_fine_iff {string : CharBuffer} (h : string.IsString) {other : UInt8}
    {junk : ℕ → UInt8} (hsize : string.size + 1 < 2 ^ 62) :
    (StringOp.push other junk).Fine string ↔ string.capacity ≠ 0 := by
  obtain rfl | ⟨rest, hrest⟩ := h.cases
  · refine ⟨?_, fun hne => absurd rfl hne⟩
    intro hfine
    obtain ⟨t, heq⟩ := stringPush_zero other junk
    rw [StringOp.Fine, StringOp.run, heq] at hfine
    obtain ⟨-, ⟨reason, hreason⟩, -⟩ := hfine
    cases hreason
  · have hne : string.capacity ≠ 0 := by
      rw [hrest.capacity_eq, hrest.p_eq, List.length_append, List.length_cons]
      omega
    obtain ⟨t, rest', heq, ht⟩ := stringPush_holds hrest hsize other junk
    exact iff_of_true (ht.fine heq rfl) hne

theorem stringReserve_fine_iff {string : CharBuffer} (h : string.IsString) {capacity : ℕ}
    {junk : ℕ → UInt8} (hcapacity : capacity < 2 ^ 62) :
    (StringOp.reserve capacity junk).Fine string ↔ string.capacity ≠ 0 ∨ junk 0 = 0 := by
  obtain rfl | ⟨rest, hrest⟩ := h.cases
  · obtain ⟨t, heq, hlength, hpos, hsize, hget⟩ := stringReserve_zero hcapacity junk
    rw [StringOp.Fine, StringOp.run, heq]
    constructor
    · rintro ⟨ht, -⟩
      obtain ⟨-, hzero⟩ | ⟨-, hzero⟩ := ht.terminated
      · exact absurd hzero (by omega)
      · rw [hsize, hget] at hzero
        exact .inr (Option.some.inj hzero)
    · rintro (hne | hjunk)
      · exact absurd rfl hne
      · refine ⟨⟨hlength, .inr ⟨by omega, ?_⟩⟩, ?_⟩
        · rw [hsize, hget, hjunk]
        · rw [StringOp.Follows, CharBuffer.text, hsize]
          rfl
  · have hne : string.capacity ≠ 0 := by
      rw [hrest.capacity_eq, hrest.p_eq, List.length_append, List.length_cons]
      omega
    obtain ⟨t, rest', heq, ht⟩ := stringReserve_holds hrest hcapacity junk
    exact iff_of_true (ht.fine heq rfl) (.inl hne)

/-- A call on a string is fine exactly when it leaves a terminator. -/
theorem StringOp.fine_iff {string : CharBuffer} (h : string.IsString) (hsize : string.size < 2 ^ 62)
    {op : StringOp} (hrange : op.InRange string) : op.Fine string ↔ op.Terminates string := by
  cases op with
  | zero =>
    obtain ⟨t, heq, ht, htext⟩ := stringZero_holds h
    refine iff_of_true ?_ trivial
    rw [Fine, run, heq]
    exact ⟨ht, htext⟩
  | resize size junk =>
    obtain ⟨t, front, rest, heq, ht, hfront, htake⟩ := stringResizeWithin_holds h hrange junk
    rw [← h.length_text] at htake
    exact iff_of_true (ht.fine heq ⟨hfront, htake⟩) trivial
  | reserve capacity junk => exact stringReserve_fine_iff h hrange
  | copyMem other junk =>
    obtain ⟨t, rest, heq, ht⟩ := stringCopyMem_holds h hrange junk
    exact iff_of_true (ht.fine heq rfl) trivial
  | push other junk => exact stringPush_fine_iff h hrange
  | appendMem other junk =>
    obtain ⟨t, rest, heq, ht⟩ := stringAppendMem_holds h hrange junk
    exact iff_of_true (ht.fine heq rfl) trivial
  | trim =>
    obtain ⟨t, heq, ht, htext⟩ := stringTrim_holds h hsize
    refine iff_of_true ?_ trivial
    rw [Fine, run, heq]
    exact ⟨ht, htext⟩
  | remove begin size =>
    refine iff_of_true ?_ trivial
    obtain ⟨hbegin, hend⟩ := hrange
    by_cases hcheck : begin + size < string.size
    · obtain ⟨t, rest, heq, ht⟩ := stringRemove_holds h hsize hcheck
      exact ht.fine heq rfl
    · have heq : stringRemove string begin size
          = .error (.failed "begin + size < string->size") string := by
        rw [stringRemove, sizeAdd_eq (by omega), if_neg hcheck]
      rw [Fine, run, heq]
      refine ⟨rfl, ⟨_, rfl⟩, ?_⟩
      rw [Refused, h.length_text]
      omega

/-- A step of a run: a call that stays inside the block. -/
def stringStep (string : CharBuffer) (op : StringOp) (t : CharBuffer) : Prop :=
  op.run string = .ok () t ∨ ∃ reason, op.run string = .error (.failed reason) t

/-- A fine call keeps the size in range. -/
theorem size_lt_of_follows {string t : CharBuffer} (h : string.IsString) (ht : t.IsString)
    (hsize : string.size < 2 ^ 62) {op : StringOp} (hrange : op.InRange string)
    (hfollows : op.Follows string.text t.text) : t.size < 2 ^ 62 := by
  rw [← h.length_text] at hsize
  rw [← ht.length_text]
  cases op with
  | zero =>
    rw [show t.text = [] from hfollows]
    exact Nat.two_pow_pos 62
  | resize size junk =>
    rw [hfollows.1]
    exact hrange
  | reserve capacity junk =>
    rw [show t.text = string.text from hfollows]
    exact hsize
  | copyMem other junk =>
    rw [show t.text = other from hfollows]
    exact hrange
  | push other junk =>
    rw [show t.text = string.text ++ [other] from hfollows, List.length_append, h.length_text]
    exact hrange
  | appendMem other junk =>
    rw [show t.text = string.text ++ other from hfollows, List.length_append, h.length_text]
    exact hrange
  | trim =>
    rw [show t.text = _ from hfollows]
    have hdrop := (List.dropWhile_suffix isTrimmed (l := string.text)).length_le
    have hrdrop := (List.rdropWhile_prefix isTrimmed (l := string.text.dropWhile isTrimmed)).length_le
    omega
  | remove begin size =>
    rw [show t.text = _ from hfollows, List.length_append, List.length_take, List.length_drop]
    omega

/-- One step keeps the representation and the range of the size. -/
theorem stringStep_isString {string t : CharBuffer} {op : StringOp}
    (h : string.IsString ∧ string.size < 2 ^ 62)
    (hcondition : op.InRange string ∧ op.Terminates string) (hstep : stringStep string op t) :
    t.IsString ∧ t.size < 2 ^ 62 := by
  obtain ⟨hstring, hsize⟩ := h
  have hfine := (op.fine_iff hstring hsize hcondition.1).mpr hcondition.2
  obtain hok | ⟨reason, herror⟩ := hstep
  · obtain ⟨ht, hfollows⟩ := Outcome.Ensures.of_eq_ok hfine hok
    exact ⟨ht, size_lt_of_follows hstring ht hsize hcondition.1 hfollows⟩
  · obtain ⟨rfl, -, -⟩ := Outcome.Ensures.of_eq_error hfine herror
    exact ⟨hstring, hsize⟩

/-- As long as a string without a block is not pushed to and no block without a zero in front is
reserved for it, a string is one, and a call is fine exactly when it goes on like this. -/
theorem runs_isString {string : CharBuffer} {ops : List StringOp}
    (hrun : Runs (StepsWhere (fun s op => op.InRange s ∧ op.Terminates s) stringStep)
      .zero ops string) :
    string.IsString ∧
      ∀ op : StringOp, op.InRange string → (op.Fine string ↔ op.Terminates string) := by
  have hinvariant : string.IsString ∧ string.size < 2 ^ 62 := by
    have hzero : (fun s : CharBuffer => s.IsString ∧ s.size < 2 ^ 62) .zero :=
      ⟨CharBuffer.isString_zero, Nat.two_pow_pos 62⟩
    apply hrun.invariant hzero
    intro s op t hs hstep
    exact stringStep_isString hs hstep.1 hstep.2
  exact ⟨hinvariant.1, fun op hrange => op.fine_iff hinvariant.1 hinvariant.2 hrange⟩

/-- A character is copied to a string and another one pushed. -/
theorem runs_isString_push :
    (⟨[97, 98, 0, 7], 2, 4⟩ : CharBuffer).IsString ∧
      ∀ op : StringOp, op.InRange ⟨[97, 98, 0, 7], 2, 4⟩ →
        (op.Fine ⟨[97, 98, 0, 7], 2, 4⟩ ↔ op.Terminates ⟨[97, 98, 0, 7], 2, 4⟩) := by
  have hcopy : StepsWhere (fun s op => op.InRange s ∧ op.Terminates s) stringStep .zero
      (.copyMem [97] fun _ => 7) ⟨[97, 0], 1, 2⟩ :=
    ⟨⟨show (1 : ℕ) < 2 ^ 62 by decide, trivial⟩, .inl rfl⟩
  have hpush : StepsWhere (fun s op => op.InRange s ∧ op.Terminates s) stringStep ⟨[97, 0], 1, 2⟩
      (.push 98 fun _ => 7) ⟨[97, 98, 0, 7], 2, 4⟩ :=
    ⟨⟨show (2 : ℕ) < 2 ^ 62 by decide, show (2 : ℕ) ≠ 0 by decide⟩, .inl rfl⟩
  exact runs_isString (.cons hcopy (.cons hpush (.nil _)))

/-- The first push to a string writes a byte outside its block. -/
theorem push_outside :
    ¬ ∀ (ops : List StringOp) (string : CharBuffer),
      Runs (StepsWhere (fun s op => op.InRange s) stringStep) .zero ops string →
      string.IsString ∧ ∀ op : StringOp, op.InRange string → op.Fine string := by
  intro h
  have hpush := (h [] .zero (.nil _)).2 (.push 97 fun _ => 0) (show (1 : ℕ) < 2 ^ 62 by decide)
  obtain ⟨-, ⟨reason, hreason⟩, -⟩ := hpush
  cases hreason

end Twinkleshine
