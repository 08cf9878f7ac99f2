import Twinkleshine.Buffer
import Twinkleshine.Library.Cells
import Twinkleshine.Library.Transition

/-!
# Generic buffers

Reference: `commonlib/source/generic_buffer_implementation.c`.

The operations on growing arrays are stamped out by one macro for each operation, for elements of one, two,
four and eight bytes and of any number of bytes. The model has one definition for each macro, with
`SIZE_EXPRESSION` as an argument, and the functions as its instances. A buffer follows the operations on
lists as long as nobody reserves: `IMPLEMENT_GENERIC_BUFFER_RESERVE` is the text of
`IMPLEMENT_GENERIC_BUFFER_RESIZE`, down to the assignment of the size.
-/

namespace Twinkleshine

open Library

/-! ## The macros -/

/-- `struct GenericByteBuffer` and the like: the block in bytes, the size and the capacity in elements. -/
structure GenericBuffer where
  p : List UInt8
  size : ℕ
  capacity : ℕ
deriving DecidableEq, Repr

/-- `generic_buffer_initialize` -/
def genericBufferInitialize : GenericBuffer := ⟨[], 0, 0⟩

/-- What the macros do when the capacity is too small: `realloc()` to a new capacity. -/
def GenericBuffer.reallocate (sizeExpression newCapacity : ℕ) (realloc : Realloc)
    (buffer : GenericBuffer) : Outcome Error GenericBuffer Unit :=
  match countRealloc realloc buffer.p (newCapacity * sizeExpression % sizeModulus) with
  | none => .error "new_p != NULL" buffer
  | some newP => .ok () { buffer with capacity := newCapacity, p := newP }

/-- The block that doubles the capacity until there is room for `needed` elements. -/
def GenericBuffer.grow (sizeExpression needed : ℕ) (realloc : Realloc) (buffer : GenericBuffer) :
    Outcome Error GenericBuffer Unit :=
  if needed > buffer.capacity then
    match growCapacity 66 needed (if buffer.capacity = 0 then 1 else buffer.capacity) with
    | none => .hang
    | some newCapacity => buffer.reallocate sizeExpression newCapacity realloc
  else .ok () buffer

/-- `IMPLEMENT_GENERIC_BUFFER_RESIZE` -/
def implementGenericBufferResize (sizeExpression : ℕ) (buffer : GenericBuffer) (size : ℕ)
    (realloc : Realloc) : Outcome Error GenericBuffer Unit :=
  (buffer.grow sizeExpression size realloc).andThen fun _ buffer => .ok () { buffer with size := size }

/-- `IMPLEMENT_GENERIC_BUFFER_RESERVE` -/
def implementGenericBufferReserve (sizeExpression : ℕ) (buffer : GenericBuffer) (size : ℕ)
    (realloc : Realloc) : Outcome Error GenericBuffer Unit :=
  (buffer.grow sizeExpression size realloc).andThen fun _ buffer => .ok () { buffer with size := size }

/-- `IMPLEMENT_GENERIC_BUFFER_APPEND` -/
def implementGenericBufferAppend (sizeExpression : ℕ) (buffer : GenericBuffer) (data : List UInt8)
    (size : ℕ) (realloc : Realloc) : Outcome Error GenericBuffer Unit :=
  (buffer.grow sizeExpression (sizeAdd buffer.size size) realloc).andThen fun _ buffer =>
  .ok () { buffer with
    p := memcpy buffer.p (buffer.size * sizeExpression)
      (data.take (size * sizeExpression % sizeModulus))
    size := sizeAdd buffer.size size }

/-- `IMPLEMENT_GENERIC_BUFFER_PUSH`, which doubles the capacity once. -/
def implementGenericBufferPush (sizeExpression : ℕ) (buffer : GenericBuffer) (data : List UInt8)
    (realloc : Realloc) : Outcome Error GenericBuffer Unit :=
  (if sizeAdd buffer.size 1 > buffer.capacity then
    buffer.reallocate sizeExpression
      (if buffer.capacity = 0 then 1 else buffer.capacity * 2 % sizeModulus) realloc
  else .ok () buffer).andThen fun _ buffer =>
  .ok () { buffer with
    p := memcpy buffer.p (buffer.size * sizeExpression) data
    size := sizeAdd buffer.size 1 }

/-! ## The functions -/

def genericBufferResize1 := implementGenericBufferResize 1
def genericBufferResize2 := implementGenericBufferResize 2
def genericBufferResize4 := implementGenericBufferResize 4
def genericBufferResize8 := implementGenericBufferResize 8
def genericBufferResizeN (buffer : GenericBuffer) (size elementSizeof : ℕ) :=
  implementGenericBufferResize elementSizeof buffer size

def genericBufferReserve1 := implementGenericBufferReserve 1
def genericBufferReserve2 := implementGenericBufferReserve 2
def genericBufferReserve4 := implementGenericBufferReserve 4
def genericBufferReserve8 := implementGenericBufferReserve 8
def genericBufferReserveN (buffer : GenericBuffer) (size elementSizeof : ℕ) :=
  implementGenericBufferReserve elementSizeof buffer size

def genericBufferAppend1 := implementGenericBufferAppend 1
def genericBufferAppend2 := implementGenericBufferAppend 2
def genericBufferAppend4 := implementGenericBufferAppend 4
def genericBufferAppend8 := implementGenericBufferAppend 8
def genericBufferAppendN (buffer : GenericBuffer) (data : List UInt8) (size elementSizeof : ℕ) :=
  implementGenericBufferAppend elementSizeof buffer data size

def genericBufferPush1 := implementGenericBufferPush 1
def genericBufferPush2 := implementGenericBufferPush 2
def genericBufferPush4 := implementGenericBufferPush 4
def genericBufferPush8 := implementGenericBufferPush 8

/-! ## Calls -/

/-- An element of so many bytes. -/
abbrev Element (elementSizeof : ℕ) : Type := {bytes : List UInt8 // bytes.length = elementSizeof}

/-- A call on a buffer of such elements. Only four sizes of elements can be pushed. -/
inductive BufferCall : ℕ → Type where
  | resize {elementSizeof : ℕ} (size : ℕ) : BufferCall elementSizeof
  | reserve {elementSizeof : ℕ} (size : ℕ) : BufferCall elementSizeof
  | append {elementSizeof : ℕ} (data : List (Element elementSizeof)) : BufferCall elementSizeof
  | push1 (data : Element 1) : BufferCall 1
  | push2 (data : Element 2) : BufferCall 2
  | push4 (data : Element 4) : BufferCall 4
  | push8 (data : Element 8) : BufferCall 8

/-- `resize` of `IMPLEMENT_BUFFER_RESIZE`, without the elements' own functions. -/
def bufferResize (elementSizeof : ℕ) (buffer : GenericBuffer) (size : ℕ) (realloc : Realloc) :
    Outcome Error GenericBuffer Unit :=
  match elementSizeof with
  | 1 => genericBufferResize1 buffer size realloc
  | 2 => genericBufferResize2 buffer size realloc
  | 4 => genericBufferResize4 buffer size realloc
  | 8 => genericBufferResize8 buffer size realloc
  | _ => genericBufferResizeN buffer size elementSizeof realloc

/-- `reserve` of `IMPLEMENT_BUFFER_RESERVE` -/
def bufferReserve (elementSizeof : ℕ) (buffer : GenericBuffer) (size : ℕ) (realloc : Realloc) :
    Outcome Error GenericBuffer Unit :=
  match elementSizeof with
  | 1 => genericBufferReserve1 buffer size realloc
  | 2 => genericBufferReserve2 buffer size realloc
  | 4 => genericBufferReserve4 buffer size realloc
  | 8 => genericBufferReserve8 buffer size realloc
  | _ => genericBufferReserveN buffer size elementSizeof realloc

/-- `append` of `IMPLEMENT_BUFFER_APPEND` -/
def bufferAppend (elementSizeof : ℕ) (buffer : GenericBuffer) (data : List UInt8) (size : ℕ)
    (realloc : Realloc) : Outcome Error GenericBuffer Unit :=
  match elementSizeof with
  | 1 => genericBufferAppend1 buffer data size realloc
  | 2 => genericBufferAppend2 buffer data size realloc
  | 4 => genericBufferAppend4 buffer data size realloc
  | 8 => genericBufferAppend8 buffer data size realloc
  | _ => genericBufferAppendN buffer data size elementSizeof realloc

/-- What a call does when every allocation is granted. -/
def BufferCall.run (junk : ℕ → UInt8) (buffer : GenericBuffer) :
    {elementSizeof : ℕ} → BufferCall elementSizeof → Outcome Error GenericBuffer Unit
  | elementSizeof, .resize size => bufferResize elementSizeof buffer size (some junk)
  | elementSizeof, .reserve size => bufferReserve elementSizeof buffer size (some junk)
  | elementSizeof, .append data =>
    bufferAppend elementSizeof buffer (data.map Subtype.val).flatten data.length (some junk)
  | _, .push1 data => genericBufferPush1 buffer data.val (some junk)
  | _, .push2 data => genericBufferPush2 buffer data.val (some junk)
  | _, .push4 data => genericBufferPush4 buffer data.val (some junk)
  | _, .push8 data => genericBufferPush8 buffer data.val (some junk)

/-- A call that returns. -/
def BufferStep (elementSizeof : ℕ) (s : GenericBuffer) (call : BufferCall elementSizeof)
    (t : GenericBuffer) : Prop :=
  ∃ junk, call.run junk s = .ok () t

/-! ## Lists -/

/-- The first `size` elements of a buffer. -/
def GenericBuffer.elements (elementSizeof : ℕ) (buffer : GenericBuffer) : List (List UInt8) :=
  cells elementSizeof buffer.p buffer.size

/-- The operation on lists that a call stands for. New elements of a resized list may be anything. -/
def BufferCall.OnList : {elementSizeof : ℕ} → BufferCall elementSizeof → List (List UInt8) →
    List (List UInt8) → Prop
  | _, .resize size, l, l' => l'.length = size ∧ l'.take l.length = l.take size
  | _, .reserve _, l, l' => l' = l
  | _, .append data, l, l' => l' = l ++ data.map Subtype.val
  | _, .push1 data, l, l' => l' = l ++ [data.val]
  | _, .push2 data, l, l' => l' = l ++ [data.val]
  | _, .push4 data, l, l' => l' = l ++ [data.val]
  | _, .push8 data, l, l' => l' = l ++ [data.val]

/-! ## What the operations do -/

/-- The elements lie in the block, whose bytes `size_t` can count. -/
structure GenericBuffer.Valid (elementSizeof : ℕ) (buffer : GenericBuffer) : Prop where
  length_p : buffer.p.length = buffer.capacity * elementSizeof
  size_le : buffer.size ≤ buffer.capacity
  size_lt : buffer.size < 2 ^ 62
  countable : buffer.capacity * elementSizeof < sizeModulus

theorem genericBufferInitialize_valid (elementSizeof : ℕ) :
    genericBufferInitialize.Valid elementSizeof where
  length_p := (Nat.zero_mul elementSizeof).symm
  size_le := Nat.le_refl 0
  size_lt := by decide
  countable := by
    show 0 * elementSizeof < sizeModulus
    rw [Nat.zero_mul]
    decide

/-- If the buffer has to grow, the bytes of the new block are a number that `size_t` can hold. -/
def GenericBuffer.Countable (elementSizeof needed : ℕ) (buffer : GenericBuffer) : Prop :=
  needed > buffer.capacity → ∀ newCapacity,
    growCapacity 66 needed (if buffer.capacity = 0 then 1 else buffer.capacity) = some newCapacity →
    newCapacity * elementSizeof < sizeModulus

/-- The buffer has grown, and holds what it held. -/
structure Grown (elementSizeof needed : ℕ) (buffer t : GenericBuffer) : Prop where
  size : t.size = buffer.size
  room : needed ≤ t.capacity
  length_p : t.p.length = t.capacity * elementSizeof
  countable : t.capacity * elementSizeof < sizeModulus
  front : ∃ rest, t.p = buffer.p ++ rest
  capacity : if needed > buffer.capacity then
      growCapacity 66 needed (if buffer.capacity = 0 then 1 else buffer.capacity) = some t.capacity
    else t.capacity = buffer.capacity

variable {elementSizeof needed : ℕ} {buffer t : GenericBuffer}

theorem GenericBuffer.grow_spec (h : buffer.Valid elementSizeof) (hneeded : needed < 2 ^ 62)
    (hcountable : buffer.Countable elementSizeof needed) (junk : ℕ → UInt8) :
    (buffer.grow elementSizeof needed (some junk)).Ensures
      (fun _ t => Grown elementSizeof needed buffer t) fun _ _ => False := by
  unfold GenericBuffer.grow
  by_cases hgrow : needed > buffer.capacity
  · obtain ⟨m, hm, hcap, heq⟩ := growCapacity_some 66 62
      (show 0 < if buffer.capacity = 0 then 1 else buffer.capacity by split_ifs <;> omega)
      (show needed ≤ 2 ^ 63 by omega) (by split_ifs <;> omega) (by omega)
    have hbytes := hcountable hgrow m heq
    have hlarger : buffer.p.length ≤ m * elementSizeof := by
      rw [h.length_p]
      refine Nat.mul_le_mul_right _ ?_
      split_ifs at hcap <;> omega
    rw [if_pos hgrow, heq]
    dsimp only [GenericBuffer.reallocate]
    rw [Nat.mod_eq_of_lt hbytes]
    rcases hnew : countRealloc (some junk) buffer.p (m * elementSizeof) with _ | newP
    · cases hnew
    · obtain ⟨rest, rfl, hrest⟩ := countRealloc_of_le hlarger hnew
      refine ⟨rfl, hm, ?_, hbytes, ⟨rest, rfl⟩, ?_⟩
      · rw [List.length_append, hrest]
        exact Nat.add_sub_cancel' hlarger
      · rw [if_pos hgrow]
        exact heq
  · rw [if_neg hgrow]
    refine ⟨rfl, Nat.not_lt.mp hgrow, h.length_p, h.countable, ⟨[], (List.append_nil _).symm⟩, ?_⟩
    rw [if_neg hgrow]

/-- A buffer that has grown holds the same elements. -/
theorem Grown.cells_eq (hgrown : Grown elementSizeof needed buffer t) (h : buffer.Valid elementSizeof)
    {n : ℕ} (hn : n ≤ buffer.size) :
    cells elementSizeof t.p n = cells elementSizeof buffer.p n := by
  obtain ⟨rest, hfront⟩ := hgrown.front
  rw [hfront]
  refine cells_append ?_ rest
  rw [h.length_p]
  exact Nat.mul_le_mul_right _ (hn.trans h.size_le)

/-- Resizing keeps the elements that fit. -/
theorem implementGenericBufferResize_spec (h : buffer.Valid elementSizeof) {size : ℕ}
    (hsize : size < 2 ^ 62) (hcountable : buffer.Countable elementSizeof size) (junk : ℕ → UInt8) :
    (implementGenericBufferResize elementSizeof buffer size (some junk)).Ensures
      (fun _ t => t.Valid elementSizeof ∧ t.size = size ∧
        (t.elements elementSizeof).take buffer.size = (buffer.elements elementSizeof).take size)
      fun _ _ => False := by
  refine (GenericBuffer.grow_spec h hsize hcountable junk).andThen ?_ fun _ _ => id
  intro _ grown hgrown
  refine ⟨⟨hgrown.length_p, hgrown.room, hsize, hgrown.countable⟩, rfl, ?_⟩
  rw [GenericBuffer.elements, GenericBuffer.elements, take_cells, take_cells, Nat.min_comm size]
  exact hgrown.cells_eq h (Nat.min_le_left _ _)

/-- Appending appends. -/
theorem implementGenericBufferAppend_spec (h : buffer.Valid elementSizeof) {data : List (List UInt8)}
    (hdata : ∀ x ∈ data, x.length = elementSizeof) (hsize : buffer.size + data.length < 2 ^ 62)
    (hcountable : buffer.Countable elementSizeof (buffer.size + data.length)) (junk : ℕ → UInt8) :
    (implementGenericBufferAppend elementSizeof buffer data.flatten data.length (some junk)).Ensures
      (fun _ t => t.Valid elementSizeof ∧
        t.elements elementSizeof = buffer.elements elementSizeof ++ data ∧
        ∃ grown, Grown elementSizeof (buffer.size + data.length) buffer grown ∧
          t.capacity = grown.capacity) fun _ _ => False := by
  have hadd : sizeAdd buffer.size data.length = buffer.size + data.length := sizeAdd_eq (by omega)
  rw [implementGenericBufferAppend, hadd]
  refine (GenericBuffer.grow_spec h hsize hcountable junk).andThen ?_ fun _ _ => id
  intro _ grown hgrown
  have hlength := length_flatten_of_forall hdata
  have hfit : buffer.size * elementSizeof + data.length * elementSizeof ≤ grown.p.length := by
    rw [← Nat.add_mul, hgrown.length_p]
    exact Nat.mul_le_mul_right _ hgrown.room
  have hbytes : data.length * elementSizeof < sizeModulus := by
    have := hgrown.countable
    rw [hgrown.length_p] at hfit
    omega
  have hcopied : data.flatten.take (data.length * elementSizeof % sizeModulus) = data.flatten := by
    rw [Nat.mod_eq_of_lt hbytes, List.take_of_length_le (Nat.le_of_eq hlength)]
  have hsizes : sizeAdd grown.size data.length = buffer.size + data.length := by
    rw [hgrown.size, hadd]
  refine ⟨⟨?_, ?_, ?_, hgrown.countable⟩, ?_, grown, hgrown, rfl⟩
  · rw [hcopied, hgrown.size, memcpy, length_overwrite (by rw [hlength]; exact hfit)]
    exact hgrown.length_p
  · rw [hsizes]
    exact hgrown.room
  · rw [hsizes]
    exact hsize
  · rw [GenericBuffer.elements, hsizes, hcopied, hgrown.size, memcpy, cells_overwrite hdata hfit,
      hgrown.cells_eq h (Nat.le_refl _), GenericBuffer.elements]

/-- The buffer of typed elements that the tables are modelled with is appended to as its bytes are. -/
theorem genericBufferAppend_refined {α : Type} {encode : α → List UInt8} {typed typed' : Buffer α}
    {data : List α} {newP : ℕ} (hencode : ∀ a, (encode a).length = elementSizeof)
    (h : buffer.Valid elementSizeof) (hcapacity : buffer.capacity = typed.capacity)
    (helements : buffer.elements elementSizeof = typed.elements.map encode)
    (hsize : buffer.size + data.length < 2 ^ 62)
    (hcountable : buffer.Countable elementSizeof (buffer.size + data.length)) (junk : ℕ → UInt8)
    (happend : genericBufferAppend (some newP) typed data = .ok () typed') :
    ∃ t, implementGenericBufferAppend elementSizeof buffer (data.map encode).flatten data.length
        (some junk) = .ok () t ∧
      t.Valid elementSizeof ∧ t.capacity = typed'.capacity ∧
      t.elements elementSizeof = typed'.elements.map encode := by
  have hlength : buffer.size = typed.elements.length := by
    rw [← length_cells elementSizeof buffer.p buffer.size, ← List.length_map (f := encode), ← helements]
    rfl
  have hdata : ∀ x ∈ data.map encode, x.length = elementSizeof := by
    intro x hx
    obtain ⟨a, -, rfl⟩ := List.mem_map.mp hx
    exact hencode a
  have hspec := implementGenericBufferAppend_spec h hdata (by rw [List.length_map]; exact hsize)
    (by rw [List.length_map]; exact hcountable) junk
  rw [List.length_map] at hspec
  obtain ⟨_, t, hreturns, hvalid, hresult, grown, hgrown, hcap⟩ := hspec.exists_ok
  have hgrew := hgrown.capacity
  rw [← hcap, hcapacity, hlength] at hgrew
  refine ⟨t, hreturns, hvalid, ?_⟩
  rw [hresult, helements, ← List.map_append]
  unfold genericBufferAppend at happend
  by_cases hfull : typed.elements.length + data.length > typed.capacity
  · rw [if_pos hfull] at hgrew
    simp only [if_pos hfull, hgrew] at happend
    obtain ⟨-, rfl⟩ := Outcome.ok.inj happend
    exact ⟨rfl, rfl⟩
  · rw [if_neg hfull] at hgrew
    simp only [if_neg hfull] at happend
    obtain ⟨-, rfl⟩ := Outcome.ok.inj happend
    exact ⟨hgrew, rfl⟩

/-- Pushing is appending one element: where the buffer is full, doubling it once is enough. -/
theorem implementGenericBufferPush_eq (h : buffer.Valid elementSizeof) {data : List UInt8}
    (hdata : data.length = elementSizeof) (hbytes : elementSizeof < sizeModulus) (realloc : Realloc) :
    implementGenericBufferPush elementSizeof buffer data realloc
      = implementGenericBufferAppend elementSizeof buffer data 1 realloc := by
  have hlt := h.size_lt
  have hle := h.size_le
  have hadd : sizeAdd buffer.size 1 = buffer.size + 1 := sizeAdd_eq (by omega)
  have hcopied : data.take (1 * elementSizeof % sizeModulus) = data := by
    rw [Nat.one_mul, Nat.mod_eq_of_lt hbytes, ← hdata, List.take_length]
  have hgrow : (if sizeAdd buffer.size 1 > buffer.capacity then
        buffer.reallocate elementSizeof
          (if buffer.capacity = 0 then 1 else buffer.capacity * 2 % sizeModulus) realloc
      else .ok () buffer) = buffer.grow elementSizeof (sizeAdd buffer.size 1) realloc := by
    rw [GenericBuffer.grow, hadd]
    by_cases hfull : buffer.size + 1 > buffer.capacity
    · have hcap : buffer.capacity = buffer.size := by omega
      have hdouble : growCapacity 66 (buffer.size + 1) (if buffer.size = 0 then 1 else buffer.size)
          = some (if buffer.size = 0 then 1 else buffer.size * 2 % sizeModulus) := by
        by_cases hzero : buffer.size = 0
        · rw [hzero]
          rfl
        · have hmod : buffer.size * 2 % sizeModulus = buffer.size * 2 :=
            Nat.mod_eq_of_lt (by rw [sizeModulus]; omega)
          rw [if_neg hzero, if_neg hzero, growCapacity, if_pos (by omega), growCapacity, hmod,
            if_neg (by omega)]
      rw [if_pos hfull, if_pos hfull, hcap, hdouble]
    · rw [if_neg hfull, if_neg hfull]
  rw [implementGenericBufferPush, implementGenericBufferAppend, hgrow]
  simp only [hcopied]

/-! ## The functions are the macros -/

theorem bufferResize_eq (elementSizeof : ℕ) :
    bufferResize elementSizeof = implementGenericBufferResize elementSizeof := by
  unfold bufferResize
  split <;> rfl

theorem bufferReserve_eq (elementSizeof : ℕ) :
    bufferReserve elementSizeof = implementGenericBufferReserve elementSizeof := by
  unfold bufferReserve
  split <;> rfl

theorem bufferAppend_eq (elementSizeof : ℕ) :
    bufferAppend elementSizeof = implementGenericBufferAppend elementSizeof := by
  unfold bufferAppend
  split <;> rfl

/-- Reserving is resizing. -/
theorem implementGenericBufferReserve_eq :
    implementGenericBufferReserve = implementGenericBufferResize := rfl

/-! ## Runs -/

/-- How many elements a call asks room for. -/
def BufferCall.asked (buffer : GenericBuffer) : {elementSizeof : ℕ} → BufferCall elementSizeof → ℕ
  | _, .resize size => size
  | _, .reserve size => size
  | _, .append data => buffer.size + data.length
  | _, .push1 _ => buffer.size + 1
  | _, .push2 _ => buffer.size + 1
  | _, .push4 _ => buffer.size + 1
  | _, .push8 _ => buffer.size + 1

/-- The call reserves nothing but the size the buffer has, and asks for a block whose bytes can be
counted. -/
structure BufferCall.Orderly (s : GenericBuffer) (call : BufferCall elementSizeof) : Prop where
  reserve : ∀ size, call = .reserve size → size = s.size
  countable : s.Countable elementSizeof (call.asked s)

/-- One element is pushed, in a buffer of any of the four sizes. -/
theorem implementGenericBufferPush_spec (h : buffer.Valid elementSizeof) (data : Element elementSizeof)
    (hbytes : elementSizeof < sizeModulus) (hsize : buffer.size + 1 < 2 ^ 62)
    (hcountable : buffer.Countable elementSizeof (buffer.size + 1)) (junk : ℕ → UInt8) :
    (implementGenericBufferPush elementSizeof buffer data.val (some junk)).Ensures
      (fun _ t => t.Valid elementSizeof ∧
        t.elements elementSizeof = buffer.elements elementSizeof ++ [data.val]) fun _ _ => False := by
  have hsingle : ∀ x ∈ [data.val], x.length = elementSizeof := by
    intro x hx
    rw [List.mem_singleton.mp hx]
    exact data.property
  have hflatten : [data.val].flatten = data.val := by
    rw [List.flatten_singleton]
  have happend := implementGenericBufferAppend_spec h hsingle hsize hcountable junk
  rw [hflatten] at happend
  rw [implementGenericBufferPush_eq h data.property hbytes]
  exact happend.mono (fun _ _ happended => ⟨happended.1, happended.2.1⟩) fun _ _ => id

/-- An orderly call returns a valid buffer, which holds the result of the operation on lists. -/
theorem BufferCall.run_spec (h : buffer.Valid elementSizeof) {call : BufferCall elementSizeof}
    (hsize : call.asked buffer < 2 ^ 62) (horderly : call.Orderly buffer) (junk : ℕ → UInt8) :
    (call.run junk buffer).Ensures
      (fun _ t => t.Valid elementSizeof ∧
        call.OnList (buffer.elements elementSizeof) (t.elements elementSizeof)) fun _ _ => False := by
  have hcountable := horderly.countable
  cases call with
  | resize size =>
    rw [BufferCall.run, bufferResize_eq]
    refine (implementGenericBufferResize_spec h hsize hcountable junk).mono ?_ fun _ _ => id
    rintro _ t ⟨hvalid, hresized, htake⟩
    refine ⟨hvalid, (length_cells _ _ _).trans hresized, ?_⟩
    rw [GenericBuffer.elements, length_cells]
    exact htake
  | reserve size =>
    obtain rfl := horderly.reserve size rfl
    rw [BufferCall.run, bufferReserve_eq, implementGenericBufferReserve_eq]
    refine (implementGenericBufferResize_spec h hsize hcountable junk).mono ?_ fun _ _ => id
    rintro _ t ⟨hvalid, hresized, htake⟩
    refine ⟨hvalid, ?_⟩
    -- a buffer of the same size has the same number of elements
    have hall : ∀ u : GenericBuffer, u.size = buffer.size →
        (u.elements elementSizeof).take buffer.size = u.elements elementSizeof := by
      intro u hu
      rw [List.take_of_length_le (by rw [GenericBuffer.elements, length_cells, hu])]
    rw [hall t hresized] at htake
    exact htake.trans (hall buffer rfl)
  | append data =>
    have hdata : ∀ x ∈ data.map Subtype.val, x.length = elementSizeof := by
      intro x hx
      obtain ⟨y, -, rfl⟩ := List.mem_map.mp hx
      exact y.property
    have happend := implementGenericBufferAppend_spec h hdata (by rw [List.length_map]; exact hsize)
      (by rw [List.length_map]; exact hcountable) junk
    rw [List.length_map] at happend
    rw [BufferCall.run, bufferAppend_eq]
    exact happend.mono (fun _ _ happended => ⟨happended.1, happended.2.1⟩) fun _ _ => id
  | push1 data => exact implementGenericBufferPush_spec h data (by decide) hsize hcountable junk
  | push2 data => exact implementGenericBufferPush_spec h data (by decide) hsize hcountable junk
  | push4 data => exact implementGenericBufferPush_spec h data (by decide) hsize hcountable junk
  | push8 data => exact implementGenericBufferPush_spec h data (by decide) hsize hcountable junk

/-- A call changes the elements of a buffer as the operation on lists does. -/
def ListStep (elementSizeof : ℕ) (l : List (List UInt8)) (call : BufferCall elementSizeof)
    (l' : List (List UInt8)) : Prop :=
  call.OnList l l'

/-- A call of a size below `2 ^ 62`. -/
def BufferCall.Below (s : GenericBuffer) (call : BufferCall elementSizeof) : Prop :=
  call.asked s < 2 ^ 62

instance (s : GenericBuffer) (call : BufferCall elementSizeof) : Decidable (call.Below s) :=
  inferInstanceAs (Decidable (call.asked s < 2 ^ 62))

/-- In every run of orderly calls the buffer stays valid, its elements run through the operations on lists,
and the next call returns. Of all reservations, those of the size the buffer has are the ones that leave the
elements as they are. -/
theorem bufferRun_follows {elementSizeof : ℕ} {calls : List (BufferCall elementSizeof)}
    {t : GenericBuffer}
    (hrun : Runs (StepsWhere (fun s call => BufferCall.Below s call ∧ call.Orderly s)
      (BufferStep elementSizeof)) genericBufferInitialize calls t) :
    t.size ≤ t.capacity ∧ (t.elements elementSizeof).length = t.size ∧
      t.p.length = t.capacity * elementSizeof ∧
      Runs (ListStep elementSizeof) [] calls (t.elements elementSizeof) ∧
      (∀ call : BufferCall elementSizeof, call.Below t → call.Orderly t → ∀ junk,
        ∃ u, call.run junk t = .ok () u) ∧
      ∀ size u, BufferStep elementSizeof t (.reserve size) u →
        (u.elements elementSizeof = t.elements elementSizeof ↔ size = t.size) := by
  obtain ⟨hvalid, hlists⟩ : t.Valid elementSizeof ∧
      Runs (ListStep elementSizeof) [] calls (t.elements elementSizeof) := by
    refine hrun.simulation (GenericBuffer.elements elementSizeof)
      (genericBufferInitialize_valid elementSizeof) ?_
    rintro s call u hs ⟨⟨hbelow, horderly⟩, junk, hreturns⟩
    exact (BufferCall.run_spec hs hbelow horderly junk).of_eq_ok hreturns
  refine ⟨hvalid.size_le, length_cells _ _ _, hvalid.length_p, hlists, ?_, ?_⟩
  · intro call hbelow horderly junk
    obtain ⟨_, u, hreturns, -⟩ := (BufferCall.run_spec hvalid hbelow horderly junk).exists_ok
    exact ⟨u, hreturns⟩
  · rintro size u ⟨junk, hreturns⟩
    constructor
    · intro hsame
      rw [BufferCall.run, bufferReserve_eq] at hreturns
      obtain ⟨_, grown, -, hu⟩ := Outcome.andThen_eq_ok.mp hreturns
      obtain ⟨-, rfl⟩ := Outcome.ok.inj hu
      have hlength := congrArg List.length hsame
      rwa [GenericBuffer.elements, GenericBuffer.elements, length_cells, length_cells] at hlength
    · rintro rfl
      have horderly : (BufferCall.reserve t.size : BufferCall elementSizeof).Orderly t := by
        refine ⟨fun size hsize => ?_, fun hgrow => absurd hvalid.size_le (Nat.not_le.mpr hgrow)⟩
        cases hsize
        rfl
      have hbelow : (BufferCall.reserve t.size : BufferCall elementSizeof).Below t := hvalid.size_lt
      exact ((BufferCall.run_spec hvalid hbelow horderly junk).of_eq_ok hreturns).2

/-- Words are appended, cut and pushed, and the size that the buffer has is reserved. -/
theorem bufferRun_follows_words : ∃ t : GenericBuffer, t.elements 2 = [[1, 2], [5, 6]] ∧
    t.size ≤ t.capacity ∧ Runs (ListStep 2) []
      [.append [⟨[1, 2], rfl⟩, ⟨[3, 4], rfl⟩], .resize 1, .reserve 1, .push2 ⟨[5, 6], rfl⟩]
      (t.elements 2) := by
  have hfits : ∀ (s : GenericBuffer) (call : BufferCall 2), call.asked s ≤ s.capacity →
      s.Countable 2 (call.asked s) := fun s call hle hgrow => absurd hle (Nat.not_le.mpr hgrow)
  have happend : StepsWhere (fun s call => BufferCall.Below s call ∧ call.Orderly s) (BufferStep 2)
      genericBufferInitialize (.append [⟨[1, 2], rfl⟩, ⟨[3, 4], rfl⟩]) ⟨[1, 2, 3, 4], 2, 2⟩ := by
    refine ⟨⟨by decide, fun size heq => ?_, fun _ newCapacity hnew => ?_⟩, fun _ => 0, rfl⟩
    · cases heq
    · rw [← Option.some.inj hnew]
      decide
  have hresize : StepsWhere (fun s call => BufferCall.Below s call ∧ call.Orderly s) (BufferStep 2)
      ⟨[1, 2, 3, 4], 2, 2⟩ (.resize 1) ⟨[1, 2, 3, 4], 1, 2⟩ := by
    refine ⟨⟨by decide, fun size heq => ?_, hfits _ _ (by decide)⟩, fun _ => 0, rfl⟩
    cases heq
  have hreserve : StepsWhere (fun s call => BufferCall.Below s call ∧ call.Orderly s) (BufferStep 2)
      ⟨[1, 2, 3, 4], 1, 2⟩ (.reserve 1) ⟨[1, 2, 3, 4], 1, 2⟩ := by
    refine ⟨⟨by decide, fun size heq => ?_, hfits _ _ (by decide)⟩, fun _ => 0, rfl⟩
    cases heq
    rfl
  have hpush : StepsWhere (fun s call => BufferCall.Below s call ∧ call.Orderly s) (BufferStep 2)
      ⟨[1, 2, 3, 4], 1, 2⟩ (.push2 ⟨[5, 6], rfl⟩) ⟨[1, 2, 5, 6], 2, 2⟩ := by
    refine ⟨⟨by decide, fun size heq => ?_, hfits _ _ (by decide)⟩, fun _ => 0, rfl⟩
    cases heq
  obtain ⟨hle, -, -, hlists, -⟩ :=
    bufferRun_follows (.cons happend (.cons hresize (.cons hreserve (.cons hpush (.nil _)))))
  exact ⟨_, rfl, hle, hlists⟩

/-- Reserving room for three bytes makes an empty buffer one of three bytes. -/
theorem bufferRun_reserve_resizes : ¬ ∀ (elementSizeof : ℕ) (calls : List (BufferCall elementSizeof))
    (t : GenericBuffer),
    Runs (StepsWhere BufferCall.Below (BufferStep elementSizeof))
      genericBufferInitialize calls t →
    t.size ≤ t.capacity ∧ Runs (ListStep elementSizeof) [] calls (t.elements elementSizeof) := by
  intro hclaim
  have hstep : BufferStep 1 genericBufferInitialize (.reserve 3) ⟨[0, 0, 0, 0], 3, 4⟩ := ⟨fun _ => 0, rfl⟩
  obtain ⟨-, hlists⟩ := hclaim 1 [.reserve 3] _ (.cons ⟨by decide, hstep⟩ (.nil _))
  cases hlists with
  | cons head tail =>
    cases tail with
    | nil => cases head

end Twinkleshine
