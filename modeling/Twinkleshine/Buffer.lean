import Twinkleshine.Ring
import Mathlib.Order.Bounds.Defs
import Mathlib.Tactic.Positivity

/-!
# Growing arrays

Reference: `generic_buffer_append_*` in `commonlib/source/generic_buffer_implementation.c`,
`string_resize` in `commonlib/source/string.c`.

The tables of clients and polls are growing arrays. `p` names the block the elements are in: raw
pointers into a table are pointers into a block, and a reallocation may move the elements to another
one.
-/

namespace Twinkleshine

open Library

/-! ## Capacity -/

/-- What doubling a positive capacity ends with: the least of its doublings that is large enough. -/
theorem growCapacity_isLeast (fuel k : ℕ) {capacity newCapacity : ℕ} (hpos : 0 < newCapacity)
    (hcap : capacity ≤ 2 ^ 63) (hle : capacity ≤ newCapacity * 2 ^ k) (hfuel : k < fuel) :
    ∃ m, IsLeast {m | capacity ≤ m ∧ ∃ j, m = newCapacity * 2 ^ j} m ∧
      growCapacity fuel capacity newCapacity = some m := by
  induction fuel generalizing k newCapacity with
  | zero => omega
  | succ fuel ih =>
    rw [growCapacity]
    by_cases hlt : capacity > newCapacity
    · have hstep : newCapacity * 2 % sizeModulus = newCapacity * 2 :=
        Nat.mod_eq_of_lt (by simp only [sizeModulus]; omega)
      have hdouble : ∀ j, newCapacity * 2 ^ (j + 1) = newCapacity * 2 * 2 ^ j := by
        intro j
        rw [Nat.mul_assoc, ← Nat.pow_succ']
      -- the capacity itself is none of the doublings that are large enough
      have hpred : ∀ j, capacity ≤ newCapacity * 2 ^ j → ∃ i, j = i + 1 := by
        intro j hj
        refine ⟨j - 1, ?_⟩
        have hj : j ≠ 0 := by
          rintro rfl
          omega
        omega
      obtain ⟨i, rfl⟩ := hpred k hle
      rw [hdouble] at hle
      obtain ⟨m, ⟨⟨hm, j, hj⟩, hleast⟩, heq⟩ := ih i (by omega) hle (by omega)
      rw [if_pos hlt, hstep]
      refine ⟨m, ⟨⟨hm, j + 1, by rw [hj, hdouble]⟩, ?_⟩, heq⟩
      rintro n ⟨hn, j', rfl⟩
      obtain ⟨i', rfl⟩ := hpred j' hn
      exact hleast ⟨hn, i', hdouble i'⟩
    · rw [if_neg hlt]
      refine ⟨newCapacity, ⟨⟨by omega, 0, by omega⟩, ?_⟩, rfl⟩
      rintro n ⟨-, j, rfl⟩
      exact Nat.le_mul_of_pos_right _ (by positivity)

/-- Doubling any positive capacity ends with one that is large enough. -/
theorem growCapacity_some (fuel k : ℕ) {capacity newCapacity : ℕ} (hpos : 0 < newCapacity)
    (hcap : capacity ≤ 2 ^ 63) (hle : capacity ≤ newCapacity * 2 ^ k) (hfuel : k < fuel) :
    ∃ m, capacity ≤ m ∧ newCapacity ≤ m ∧ growCapacity fuel capacity newCapacity = some m := by
  obtain ⟨m, ⟨⟨hm, j, rfl⟩, -⟩, heq⟩ := growCapacity_isLeast fuel k hpos hcap hle hfuel
  exact ⟨_, hm, Nat.le_mul_of_pos_right _ (by positivity), heq⟩

/-! ## Strings -/

/-- `struct CharBuffer`: a text of `size` bytes with a zero after it, in a block of `capacity`. -/
structure CharBuffer where
  p : List UInt8
  size : ℕ
  capacity : ℕ
deriving DecidableEq, Repr

/-- The text lies in the block, with its terminating zero unless there is no block yet. -/
structure CharBuffer.Valid (string : CharBuffer) : Prop where
  length_p : string.p.length = string.capacity
  size_lt : string.size < string.capacity ∨ string.size = 0 ∧ string.capacity = 0

/-- The text of a buffer. -/
def CharBuffer.text (string : CharBuffer) : List UInt8 := string.p.take string.size

/-- The block of `string_resize` that gets a larger block of memory. -/
def stringGrow (string : CharBuffer) (needed : ℕ) (realloc : Realloc) :
    Outcome Error CharBuffer Unit :=
  if needed > string.capacity then
    match growCapacity 66 needed (if string.capacity = 0 then 1 else string.capacity) with
    | none => .hang
    | some newCapacity =>
      match countRealloc realloc string.p newCapacity with
      | none => .error "new_p != NULL" string
      | some newP => .ok () { string with capacity := newCapacity, p := newP }
  else .ok () string

/-- `string_resize` -/
def stringResize (string : CharBuffer) (size : ℕ) (realloc : Realloc) :
    Outcome Error CharBuffer Unit :=
  (stringGrow string (sizeAdd size 1) realloc).andThen fun _ string =>
  .ok () { string with size := size, p := memcpy string.p size [0] }

/-- A larger block begins with the old one. -/
theorem stringGrow_spec {string : CharBuffer} (hp : string.p.length = string.capacity) {needed : ℕ}
    (hneeded : needed ≤ 2 ^ 63) (realloc : Realloc) :
    (stringGrow string needed realloc).Ensures
      (fun _ t => t.p.length = t.capacity ∧ needed ≤ t.capacity ∧
        ∃ junk, t.p = string.p ++ junk)
      (fun _ t => t = string ∧ realloc = none) := by
  unfold stringGrow
  by_cases hgrow : needed > string.capacity
  · obtain ⟨m, hm, hcapm, heq⟩ := growCapacity_some 66 63
      (show 0 < if string.capacity = 0 then 1 else string.capacity by split_ifs <;> omega)
      hneeded (by split_ifs <;> omega) (by omega)
    rw [if_pos hgrow, heq]
    dsimp only
    rcases hnew : countRealloc realloc string.p m with _ | newP
    · exact ⟨rfl, by simpa [countRealloc] using hnew⟩
    · have hmcap : string.p.length ≤ m := by
        rw [hp]
        split_ifs at hcapm <;> omega
      obtain ⟨junk, rfl, hjunk⟩ := countRealloc_of_le hmcap hnew
      exact ⟨by simp only [List.length_append, hjunk]; omega, hm, junk, rfl⟩
  · rw [if_neg hgrow]
    exact ⟨hp, by omega, [], (List.append_nil _).symm⟩

/-- A longer text begins with the old one; resizing fails only when the allocator refuses. -/
theorem stringResize_spec {string : CharBuffer} (h : string.Valid) {size : ℕ}
    (hle : string.size ≤ size) (hsize : size < 2 ^ 63) (realloc : Realloc) :
    (stringResize string size realloc).Ensures
      (fun _ t => t.Valid ∧ t.size = size ∧ t.p.take string.size = string.text)
      (fun _ t => t = string ∧ realloc = none) := by
  have hs := h.size_lt
  have hp := h.length_p
  have hneeded : sizeAdd size 1 = size + 1 := sizeAdd_eq (by omega)
  rw [stringResize, hneeded]
  refine (stringGrow_spec hp (by omega) realloc).andThen ?_ fun _ _ hfail => hfail
  rintro _ t ⟨hlength, hcap, junk, hjunk⟩
  -- writing the terminating zero behind the old text
  have hfit : size + [(0 : UInt8)].length ≤ t.p.length := by
    rw [List.length_singleton, hlength]
    exact hcap
  refine ⟨⟨?_, .inl hcap⟩, rfl, ?_⟩
  · rw [memcpy, length_overwrite hfit, hlength]
  · rw [memcpy, take_overwrite_of_le hfit hle, hjunk, List.take_append_of_le_length (by omega),
      CharBuffer.text]

/-! ## Arrays -/

/-- `struct GenericByteBuffer` with typed elements; `size` is the length of the list. -/
structure Buffer (α : Type) where
  p : ℕ
  elements : List α
  capacity : ℕ
deriving DecidableEq, Repr

/-- `generic_buffer_append_n`. The allocator refuses, or names the block the elements are in then. -/
def genericBufferAppend {α : Type} (realloc : Option ℕ) (buffer : Buffer α) (data : List α) :
    Outcome Error (Buffer α) Unit :=
  let size := buffer.elements.length + data.length
  if size > buffer.capacity then
    match growCapacity 66 size (if buffer.capacity = 0 then 1 else buffer.capacity) with
    | none => .hang
    | some newCapacity =>
      match realloc with
      | none => .error "new_p != NULL" buffer
      | some newP => .ok () ⟨newP, buffer.elements ++ data, newCapacity⟩
  else .ok () { buffer with elements := buffer.elements ++ data }

/-- So many elements more have room, or memory is granted for them. -/
def Buffer.Grants {α : Type} (buffer : Buffer α) (count : ℕ) (realloc : Option ℕ) : Prop :=
  buffer.elements.length + count ≤ buffer.capacity ∨ realloc.isSome = true

/-- Appending appends if there is or will be room, and leaves the buffer as it was if there is none. -/
theorem genericBufferAppend_meets {α : Type} (realloc : Option ℕ) (buffer : Buffer α) (data : List α) :
    (genericBufferAppend realloc buffer data).Meets True
      (fun _ t => buffer.Grants data.length realloc ∧ t.elements = buffer.elements ++ data)
      fun _ t => ¬ buffer.Grants data.length realloc ∧ t = buffer := by
  unfold genericBufferAppend Buffer.Grants
  by_cases hfull : buffer.elements.length + data.length > buffer.capacity
  · simp only [if_pos hfull]
    generalize growCapacity 66 (buffer.elements.length + data.length) _ = grown
    rcases grown with _ | newCapacity
    · exact trivial
    · rcases realloc with _ | newP
      · exact ⟨not_or.mpr ⟨Nat.not_le.mpr hfull, Bool.false_ne_true⟩, rfl⟩
      · exact ⟨.inr rfl, rfl⟩
  · simp only [if_neg hfull]
    exact ⟨.inl (Nat.le_of_not_lt hfull), rfl⟩

/-- Appending succeeds when the allocator grants what it is asked for. -/
theorem genericBufferAppend_granted {α : Type} (newP : ℕ) {buffer : Buffer α} {data : List α}
    (hsize : buffer.elements.length + data.length ≤ 2 ^ 63) :
    ∃ t, genericBufferAppend (some newP) buffer data = .ok () t ∧
      t.elements = buffer.elements ++ data := by
  unfold genericBufferAppend
  by_cases hfull : buffer.elements.length + data.length > buffer.capacity
  · obtain ⟨m, -, -, heq⟩ := growCapacity_some 66 63
      (show 0 < if buffer.capacity = 0 then 1 else buffer.capacity by split_ifs <;> omega) hsize
      (by split_ifs <;> omega) (by omega)
    simp only [if_pos hfull, heq]
    exact ⟨_, rfl, rfl⟩
  · simp only [if_neg hfull]
    exact ⟨_, rfl, rfl⟩

end Twinkleshine
