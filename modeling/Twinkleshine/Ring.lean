import Twinkleshine.ExtendedError
import Twinkleshine.Value

/-!
# Byte rings

Reference: `include/ring.h`, `source/ring.c`.

A ring keeps `size` used bytes in a block of `capacity` bytes, from `begin` on and continuing at the
start of the block. Functions that change a ring return it also when they fail.
-/

namespace Twinkleshine

open Library

/-- `struct Ring` -/
structure Ring where
  p : List UInt8
  size : ℕ
  capacity : ℕ
  begin : ℕ
deriving DecidableEq, Repr

/-- `ZERO_INIT` -/
def Ring.zero : Ring := ⟨[], 0, 0, 0⟩

/-- `ring_finalize` -/
def ringFinalize (_ring : Ring) : Ring := Ring.zero

/-! ## Capacity -/

/-- `while (capacity > new_capacity) new_capacity *= 2`, `none` when the loop never ends: after 64
doublings `new_capacity` has wrapped to zero and stays there. -/
def growCapacity : ℕ → ℕ → ℕ → Option ℕ
  | 0, _, _ => none
  | fuel + 1, capacity, newCapacity =>
    if capacity > newCapacity then growCapacity fuel capacity (newCapacity * 2 % sizeModulus)
    else some newCapacity

/-- The block of `ring_reserve` that moves the data out of the part that is given back. -/
def ringShrink (ring : Ring) (capacity newCapacity : ℕ) : Outcome Error Ring Unit :=
  if newCapacity ≥ ring.size then
    let continuousAfterBegin := ring.capacity - ring.begin
    if ring.size ≤ continuousAfterBegin then
      if ring.begin + ring.size > newCapacity then
        -- relocating whole data to the beginning
        .ok () { ring with p := memmove ring.p 0 ring.begin ring.size, begin := 0 }
      else .ok () ring
    else
      -- relocating first part to the new edge
      let shrink := ring.capacity - newCapacity
      .ok () { ring with
        p := memmove ring.p (ring.begin - shrink) ring.begin continuousAfterBegin
        begin := ring.begin - shrink }
  else .error s!"Cannot shrink {uintText capacity} bytes into {uintText ring.size}" ring

/-- The block of `ring_reserve` that moves the first part of wrapped data to the new edge. -/
def ringExpand (ring : Ring) (newCapacity : ℕ) : Ring :=
  let continuousAfterBegin := ring.capacity - ring.begin
  if ring.size ≤ continuousAfterBegin then ring
  else
    let expand := newCapacity - ring.capacity
    { ring with
      p := memmove ring.p (ring.begin + expand) ring.begin continuousAfterBegin
      begin := ring.begin + expand }

/-- `ring_reserve` -/
def ringReserve (ring : Ring) (capacity : ℕ) (realloc : Realloc) : Outcome Error Ring Unit :=
  match growCapacity 66 capacity (if ring.capacity = 0 then 1 else ring.capacity) with
  | none => .hang
  | some newCapacity =>
    if newCapacity = ring.capacity then .ok () ring -- capacity is not changed
    else
      (if newCapacity < ring.capacity then ringShrink ring capacity newCapacity
        else .ok () ring).andThen
        fun _ ring =>
          match countRealloc realloc ring.p newCapacity with
          | none => .error "new_p != NULL" ring
          | some newP =>
            let ring := { ring with p := newP }
            let ring := if newCapacity > ring.capacity then ringExpand ring newCapacity else ring
            .ok () { ring with capacity := newCapacity }

/-! ## Access -/

/-- `ring_get_all` -/
def ringGetAll (ring : Ring) : MutableValue :=
  if ring.p = [] then MutableValue.zero
  else
    let continuousAfterBegin := ring.capacity - ring.begin
    if ring.size ≤ continuousAfterBegin then ⟨⟨ring.begin, ring.size⟩, ⟨0, 0⟩⟩
    else ⟨⟨ring.begin, continuousAfterBegin⟩, ⟨0, ring.size - continuousAfterBegin⟩⟩

/-- The parts of `size` bytes from `offset` on, as `ring_get` computes them. -/
def ringParts (ring : Ring) (offset size : ℕ) : MutableValue :=
  let continuousAfterBegin := ring.capacity - ring.begin
  if offset ≤ continuousAfterBegin then
    let continuousAfterOffset := continuousAfterBegin - offset
    if continuousAfterOffset = 0 then ⟨⟨0, size⟩, ⟨0, 0⟩⟩
    else if size ≤ continuousAfterOffset then ⟨⟨ring.begin + offset, size⟩, ⟨0, 0⟩⟩
    else ⟨⟨ring.begin + offset, continuousAfterOffset⟩, ⟨0, size - continuousAfterOffset⟩⟩
  else ⟨⟨offset - continuousAfterBegin, size⟩, ⟨0, 0⟩⟩ -- guaranteed no second rollover

/-- `ring_get`: with `latest` the offset counts from the newest byte back. -/
def ringGet (ring : Ring) (location : ValueLocation) (latest : Bool) : Except Error MutableValue :=
  if sizeAdd location.offset location.size ≤ ring.size then
    if location.size = 0 then .ok MutableValue.zero
    else
      let offset :=
        if latest then ring.size - location.size - location.offset else location.offset
      .ok (ringParts ring offset location.size)
  else .error s!"Cannot get {uintText location.size} bytes from ring with size {uintText ring.size}"

/-- `ring_get` through the constant member of `union Value`. -/
def ringLookup (ring : Ring) (location : ValueLocation) : Except Error ConstantValue :=
  (ringGet ring location false).map (·.read ring.p)

/-! ## Adding and removing bytes -/

/-- `ring_push` -/
def ringPush (ring : Ring) (size : ℕ) : Outcome Error Ring Unit :=
  if sizeAdd ring.size size ≤ ring.capacity then
    .ok () { ring with size := sizeAdd ring.size size }
  else
    .error s!"Cannot push {uintText size} bytes to ring with capacity {uintText ring.capacity}" ring

/-- `ring_push_get` -/
def ringPushGet (ring : Ring) (size : ℕ) : Outcome Error Ring MutableValue :=
  (ringPush ring size).andThen fun _ ring => .ofExcept (ringGet ring ⟨0, size⟩ true) ring

/-- `value_write` into a value of the ring. -/
def Ring.write (ring : Ring) (value : MutableValue) (source : List UInt8) : Ring :=
  { ring with p := valueWrite ring.p value source }

/-- `ring_push_write` -/
def ringPushWrite (ring : Ring) (bytes : List UInt8) : Outcome Error Ring Unit :=
  (ringPushGet ring bytes.length).andThen fun value ring => .ok () (ring.write value bytes)

/-- `ring_pop` -/
def ringPop (ring : Ring) (size : ℕ) : Outcome Error Ring Unit :=
  if ring.size ≥ size then
    let continuousAfterBegin := ring.capacity - ring.begin
    let begin :=
      if size ≤ continuousAfterBegin then ring.begin + size else size - continuousAfterBegin
    let remaining := ring.size - size
    .ok () { ring with
      begin := if remaining = 0 then 0 else begin -- move to begin because why not
      size := remaining }
  else .error s!"Cannot pop {uintText size} bytes from ring with size {uintText ring.size}" ring

/-- `ring_pop_read` -/
def ringPopRead (ring : Ring) (size : ℕ) : Outcome Error Ring (List UInt8) :=
  (Outcome.ofExcept (ringGet ring ⟨0, size⟩ false) ring).andThen fun value ring =>
    let bytes := valueRead (value.read ring.p)
    (ringPop ring size).andThen fun _ ring => .ok bytes ring

/-- `ring_unpush` -/
def ringUnpush (ring : Ring) (size : ℕ) : Outcome Error Ring Unit :=
  if ring.size ≥ size then .ok () { ring with size := ring.size - size }
  else .error s!"Cannot unpush {uintText size} bytes from ring with size {uintText ring.size}" ring

end Twinkleshine
