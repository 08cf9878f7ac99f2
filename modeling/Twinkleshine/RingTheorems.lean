import Twinkleshine.Ring
import Twinkleshine.ValueTheorems
import Mathlib.Tactic.Ring

/-!
# What the ring operations do to the content

`ringContent` is the used part of a ring as a list. `Ring.Valid` is the invariant of the rings the
operations build from `Ring.zero`; the theorems below are the specifications of the operations on
valid rings, and callers use nothing else about them.
-/

namespace Twinkleshine

open Library

/-- The used bytes of a ring, oldest first. -/
def ringContent (ring : Ring) : List UInt8 := window ring.p ring.begin ring.size

/-- The used part lies in the block. -/
structure Ring.Sound (ring : Ring) : Prop where
  length_p : ring.p.length = ring.capacity
  size_le : ring.size ≤ ring.capacity
  begin_le : ring.begin ≤ ring.capacity

/-- The invariant of a ring: it is sound, and its capacity is zero or a power of two. -/
structure Ring.Valid (ring : Ring) : Prop extends Ring.Sound ring where
  capacity_pow : ring.capacity = 0 ∨ ∃ k ≤ 63, ring.capacity = 2 ^ k

theorem Ring.zero_valid : Ring.zero.Valid :=
  ⟨⟨rfl, le_refl _, le_refl _⟩, .inl rfl⟩

@[simp] theorem ringContent_zero : ringContent Ring.zero = [] := rfl

theorem Ring.Valid.capacity_le {ring : Ring} (h : ring.Valid) : ring.capacity ≤ 2 ^ 63 := by
  obtain h0 | ⟨k, hk, h0⟩ := h.capacity_pow
  · omega
  · exact h0 ▸ Nat.pow_le_pow_right (by omega) hk

theorem Ring.Valid.size_lt {ring : Ring} (h : ring.Valid) : ring.size < 2 ^ 64 := by
  have := h.size_le
  have := h.capacity_le
  omega

@[simp] theorem Ring.Sound.length_content {ring : Ring} (h : ring.Sound) :
    (ringContent ring).length = ring.size := by
  have := h.length_p
  have := h.begin_le
  have := h.size_le
  exact length_window (by omega) (by omega)

/-! ## Capacity -/

/-- The doubling loop ends at the first power of two that is large enough. -/
theorem growCapacity_pow (fuel : ℕ) {capacity k : ℕ} (hcap : capacity ≤ 2 ^ 63) (hk : k ≤ 63)
    (hfuel : 64 ≤ fuel + k) :
    ∃ m, k ≤ m ∧ m ≤ 63 ∧ capacity ≤ 2 ^ m ∧ growCapacity fuel capacity (2 ^ k) = some (2 ^ m) := by
  induction fuel generalizing k with
  | zero => omega
  | succ fuel ih =>
    rw [growCapacity]
    split_ifs with hlt
    · have hk63 : k < 63 := by
        by_contra hge
        obtain rfl : k = 63 := by omega
        omega
      have hstep : 2 ^ k * 2 % sizeModulus = 2 ^ (k + 1) := by
        rw [← pow_succ]
        exact Nat.mod_eq_of_lt (Nat.pow_lt_pow_right (by omega) (by omega))
      rw [hstep]
      obtain ⟨m, hkm, hm, hle, heq⟩ := ih (by omega : k + 1 ≤ 63) (by omega)
      exact ⟨m, by omega, hm, hle, heq⟩
    · exact ⟨k, le_refl _, hk, by omega, rfl⟩

/-- The doubling loop wraps and never ends when nothing is large enough. -/
theorem growCapacity_none (fuel : ℕ) {capacity newCapacity : ℕ} (hcap : 2 ^ 63 < capacity)
    (hnew : newCapacity = 0 ∨ ∃ k ≤ 63, newCapacity = 2 ^ k) :
    growCapacity fuel capacity newCapacity = none := by
  induction fuel generalizing newCapacity with
  | zero => rfl
  | succ fuel ih =>
    rw [growCapacity]
    rcases hnew with rfl | ⟨k, hk, rfl⟩
    · rw [if_pos (by omega)]
      exact ih (.inl rfl)
    · have hle : 2 ^ k ≤ 2 ^ 63 := Nat.pow_le_pow_right (by omega) hk
      rw [if_pos (by omega)]
      apply ih
      by_cases h63 : k = 63
      · subst h63
        exact .inl rfl
      · refine .inr ⟨k + 1, by omega, ?_⟩
        rw [← pow_succ]
        exact Nat.mod_eq_of_lt (Nat.pow_lt_pow_right (by omega) (by omega))

/-- Growing the block of a sound ring keeps its content. -/
theorem ringExpand_sound {ring : Ring} (h : ring.Sound) (junk : List UInt8) :
    let grown := ringExpand { ring with p := ring.p ++ junk } (ring.capacity + junk.length)
    grown.p.length = ring.capacity + junk.length ∧ grown.begin ≤ ring.capacity + junk.length ∧
      grown.size = ring.size ∧ window grown.p grown.begin grown.size = ringContent ring := by
  have hp := h.length_p
  have hs := h.size_le
  have hb := h.begin_le
  simp only [ringExpand]
  split_ifs with hfit
  · refine ⟨by simp [hp], by simp only; omega, rfl, ?_⟩
    show window (ring.p ++ junk) ring.begin ring.size = window ring.p ring.begin ring.size
    rw [window_of_fits (by simp [hp]; omega), window_of_fits (by omega),
      List.drop_append_of_le_length (by omega),
      List.take_append_of_le_length (by rw [List.length_drop]; omega)]
  · have htail : ((ring.p ++ junk).drop ring.begin).take (ring.capacity - ring.begin)
        = ring.p.drop ring.begin := by
      rw [List.drop_append_of_le_length (by omega),
        List.take_append_of_le_length (by rw [List.length_drop]; omega),
        List.take_of_length_le (by rw [List.length_drop]; omega)]
    have hexpand : ring.capacity + junk.length - ring.capacity = junk.length := by omega
    simp only [memmove, memcpy, htail, hexpand]
    refine ⟨?_, by omega, trivial, ?_⟩
    · rw [length_overwrite (by simp only [List.length_append, List.length_drop]; omega)]
      simp [hp]
    · exact window_overwrite_tail (by omega) (by omega)

/-- `ring_reserve` keeps the content; it fails only when the allocator refuses, and then changes
nothing. -/
theorem ringReserve_spec {ring : Ring} (h : ring.Valid) {capacity : ℕ} (hcap : capacity ≤ 2 ^ 63)
    (realloc : Realloc) :
    (ringReserve ring capacity realloc).Ensures
      (fun _ r => r.Valid ∧ ringContent r = ringContent ring ∧ r.size = ring.size ∧
        capacity ≤ r.capacity ∧ ring.capacity ≤ r.capacity)
      (fun _ r => r = ring ∧ realloc = none) := by
  obtain ⟨k, hk, hstart, hk0⟩ : ∃ k ≤ 63,
      (if ring.capacity = 0 then 1 else ring.capacity) = 2 ^ k ∧ ring.capacity ≤ 2 ^ k := by
    obtain h0 | ⟨k, hk, h0⟩ := h.capacity_pow
    · exact ⟨0, by omega, by simp [h0], by omega⟩
    · have : ring.capacity ≠ 0 := h0 ▸ (Nat.two_pow_pos k).ne'
      exact ⟨k, hk, by rw [if_neg this, h0], h0.le⟩
  obtain ⟨m, hkm, hm, hle, hgrow⟩ := growCapacity_pow 66 hcap hk (by omega)
  have hmono : ring.capacity ≤ 2 ^ m := hk0.trans (Nat.pow_le_pow_right (by omega) hkm)
  simp only [ringReserve, hstart, hgrow]
  by_cases heq : 2 ^ m = ring.capacity
  · rw [if_pos heq]
    exact ⟨h, rfl, rfl, by omega, le_refl _⟩
  · rw [if_neg heq, if_neg (by omega), Outcome.andThen_ok]
    cases hp : countRealloc realloc ring.p (2 ^ m) with
    | none =>
      refine ⟨rfl, ?_⟩
      simpa [countRealloc] using hp
    | some newP =>
      obtain ⟨junk, rfl, hjunk⟩ := countRealloc_of_le (by rw [h.length_p]; omega) hp
      rw [h.length_p] at hjunk
      have hnew : 2 ^ m = ring.capacity + junk.length := by omega
      have hexp := ringExpand_sound h.toSound junk
      simp only [← hnew] at hexp
      obtain ⟨hlen, hbegin, hsize, hcontent⟩ := hexp
      simp only [if_pos (show 2 ^ m > ring.capacity by omega)]
      refine ⟨⟨⟨hlen, ?_, hbegin⟩, .inr ⟨m, hm, rfl⟩⟩, hcontent, hsize, hle, hmono⟩
      simp only [hsize]
      have := h.size_le
      omega

/-- The same of any capacity: beyond the range of `size_t` the function does not return. -/
theorem ringReserve_meets {ring : Ring} (h : ring.Valid) (capacity : ℕ) (realloc : Realloc) :
    (ringReserve ring capacity realloc).Meets (2 ^ 63 < capacity)
      (fun _ r => r.Valid ∧ ringContent r = ringContent ring ∧ r.size = ring.size ∧
        capacity ≤ r.capacity ∧ ring.capacity ≤ r.capacity)
      (fun _ r => r = ring ∧ realloc = none) := by
  by_cases hcap : capacity ≤ 2 ^ 63
  · exact (ringReserve_spec h hcap realloc).meets _
  · have hnone : growCapacity 66 capacity (if ring.capacity = 0 then 1 else ring.capacity) = none := by
      refine growCapacity_none 66 (Nat.not_le.mp hcap) (.inr ?_)
      rcases h.capacity_pow with h0 | ⟨k, hk, h0⟩
      · exact ⟨0, by omega, by rw [if_pos h0, pow_zero]⟩
      · have hpos := Nat.two_pow_pos k
        exact ⟨k, hk, by rw [if_neg (by omega), h0]⟩
    rw [ringReserve, hnone]
    exact Nat.not_le.mp hcap

/-! ## Parts of a ring -/

/-- The parts `ring_get` computes lie in the block and are disjoint. -/
theorem ringParts_placed {ring : Ring} (h : ring.Sound) {offset size : ℕ}
    (hfit : offset + size ≤ ring.size) :
    (ringParts ring offset size).Placed ring.capacity := by
  have hs := h.size_le
  have hb := h.begin_le
  simp only [ringParts]
  split_ifs <;> constructor <;> simp only [MutableContinuousValue.Inside] <;> omega

/-- The parts `ring_get` computes hold the bytes of the window. -/
theorem ringParts_bytes {ring : Ring} (h : ring.Sound) {offset size : ℕ} :
    ((ringParts ring offset size).read ring.p).bytes
      = window ring.p (ring.begin + offset) size := by
  have hp := h.length_p
  have hs := h.size_le
  have hb := h.begin_le
  simp only [ringParts]
  split_ifs with hoff hzero hcont <;>
    simp only [MutableValue.read, MutableContinuousValue.read, ConstantValue.bytes, List.take_zero,
      List.append_nil, List.drop_zero]
  · rw [window_of_past (by omega), show ring.begin + offset - ring.p.length = 0 by omega,
      List.drop_zero]
  · rw [window_of_fits (by omega)]
  · rw [window_of_wraps (by omega) (by omega),
      List.take_of_length_le (by rw [List.length_drop]; omega)]
    congr 2
    omega
  · rw [window_of_past (by omega)]
    congr 2
    omega

/-- Writing through the parts `ring_get` computes is a circular write. -/
theorem valueWrite_ringParts {ring : Ring} (h : ring.Sound) (offset : ℕ) {size : ℕ}
    {bytes : List UInt8} (hbytes : bytes.length ≤ size) :
    valueWrite ring.p (ringParts ring offset size) bytes
      = overwriteWindow ring.p (ring.begin + offset) bytes := by
  have hp := h.length_p
  have hs := h.size_le
  have hb := h.begin_le
  simp only [ringParts, overwriteWindow, valueWrite, memcpy]
  split_ifs with hoff hzero hpast hcont hpast hpast hpast <;> try omega
  · simp only [List.take_zero, overwrite_nil]
    rw [List.take_of_length_le (by omega)]
    congr 1
    omega
  · simp only [List.take_zero, overwrite_nil]
    rw [List.take_of_length_le (by omega), List.take_of_length_le (by omega),
      List.drop_eq_nil_of_le (by omega), overwrite_nil]
  · have hk : ring.capacity - ring.begin - offset = ring.p.length - (ring.begin + offset) := by
      omega
    simp only [hk]
    rw [List.take_of_length_le (l := List.drop _ _) (by rw [List.length_drop]; omega)]
  · simp only [List.take_zero, overwrite_nil]
    rw [List.take_of_length_le (by omega)]
    congr 1
    omega

/-! ## Access -/

/-- Where a location starts, counted from the oldest byte of `size` bytes. -/
def ValueLocation.start (location : ValueLocation) (latest : Bool) (size : ℕ) : ℕ :=
  if latest then size - location.size - location.offset else location.offset

/-- The segment of a byte queue that a location selects. -/
def segment (data : List UInt8) (location : ValueLocation) (latest : Bool) : List UInt8 :=
  (data.drop (location.start latest data.length)).take location.size

theorem length_segment {data : List UInt8} {location : ValueLocation} {latest : Bool}
    (h : location.limit ≤ data.length) : (segment data location latest).length = location.size := by
  simp only [ValueLocation.limit] at h
  simp only [segment, ValueLocation.start, List.length_take, List.length_drop]
  split_ifs <;> omega

/-- A successful `ring_get`: the parts hold the segment, lie in the block, and a write through them
overwrites the segment and nothing else. -/
structure RingView (ring : Ring) (location : ValueLocation) (latest : Bool)
    (value : MutableValue) : Prop where
  bytes : (value.read ring.p).bytes = segment (ringContent ring) location latest
  placed : value.Placed ring.capacity
  length_write : ∀ source : List UInt8, source.length = location.size →
    (ring.write value source).p.length = ring.p.length
  content_write : ∀ source : List UInt8, source.length = location.size →
    ringContent (ring.write value source)
      = overwrite (ringContent ring) (location.start latest ring.size) source

/-- `ring_get` succeeds on every location in range. -/
theorem ringGet_spec {ring : Ring} (h : ring.Sound) (hsize : ring.size < 2 ^ 64)
    {location : ValueLocation} (hloc : location.limit ≤ ring.size) (latest : Bool) :
    ∃ value, ringGet ring location latest = .ok value ∧ RingView ring location latest value := by
  simp only [ValueLocation.limit] at hloc
  have hp := h.length_p
  have hs := h.size_le
  have hb := h.begin_le
  simp only [ringGet, sizeAdd_eq (by omega : location.offset + location.size < 2 ^ 64), if_pos hloc]
  by_cases hzero : location.size = 0
  · rw [if_pos hzero]
    refine ⟨_, rfl, ?_, MutableValue.zero_placed _, ?_, ?_⟩
    · simp [segment, hzero, MutableValue.read, MutableContinuousValue.read, ConstantValue.bytes,
        MutableValue.zero]
    all_goals
      intro source hsource
      obtain rfl : source = [] := List.eq_nil_of_length_eq_zero (by omega)
      simp [Ring.write, valueWrite, memcpy, ringContent]
  · have hstart : location.start latest ring.size + location.size ≤ ring.size := by
      simp only [ValueLocation.start]
      split_ifs <;> omega
    have hoffset : (if latest then ring.size - location.size - location.offset
        else location.offset) = location.start latest ring.size := rfl
    rw [if_neg hzero, hoffset]
    refine ⟨_, rfl, ?_, ringParts_placed h hstart, ?_, ?_⟩
    · rw [segment, h.length_content, ringContent, take_drop_window hstart]
      exact ringParts_bytes h
    · intro source hsource
      rw [Ring.write, valueWrite_ringParts h _ hsource.le]
      exact length_overwriteWindow (by omega) (by omega)
    · intro source hsource
      rw [ringContent, Ring.write, valueWrite_ringParts h _ hsource.le]
      exact window_overwriteWindow (n := ring.size) (by omega) (by omega) (by omega)

/-- `ring_get` fails on every location out of range that does not wrap around `size_t`. -/
theorem ringGet_eq_error {ring : Ring} {location : ValueLocation} (latest : Bool)
    (hloc : ring.size < location.limit) (hwrap : location.limit < 2 ^ 64) :
    ∃ e, ringGet ring location latest = .error e := by
  simp only [ValueLocation.limit] at hloc hwrap
  rw [ringGet, sizeAdd_eq hwrap, if_neg (by omega)]
  exact ⟨_, rfl⟩

/-- What a lookup in range finds. -/
theorem ringLookup_spec {ring : Ring} (h : ring.Sound) (hsize : ring.size < 2 ^ 64)
    {location : ValueLocation} (hloc : location.limit ≤ ring.size) :
    ∃ value, ringLookup ring location = .ok value ∧
      value.bytes = segment (ringContent ring) location false := by
  obtain ⟨value, hget, hview⟩ := ringGet_spec h hsize hloc false
  exact ⟨value.read ring.p, by simp [ringLookup, hget, Except.map], hview.bytes⟩

/-- `ring_get_all` gives the whole content. -/
theorem ringGetAll_spec {ring : Ring} (h : ring.Sound) :
    ((ringGetAll ring).read ring.p).bytes = ringContent ring ∧
      (ringGetAll ring).Placed ring.capacity := by
  have hp := h.length_p
  have hs := h.size_le
  have hb := h.begin_le
  simp only [ringGetAll]
  split_ifs with hnull hcont
  · have hzero : ring.size = 0 := by
      rw [hnull, List.length_nil] at hp
      omega
    exact ⟨by simp [ringContent, hzero, hnull, MutableValue.read, MutableContinuousValue.read,
      ConstantValue.bytes], MutableValue.zero_placed _⟩
  · refine ⟨?_, .inr (by simp only; omega), .inl rfl, .inr (.inl rfl)⟩
    simp only [MutableValue.read, MutableContinuousValue.read, ConstantValue.bytes, List.take_zero,
      List.append_nil, ringContent]
    rw [window_of_fits (by omega)]
  · refine ⟨?_, .inr (by simp only; omega), .inr (by simp only; omega),
      .inr (.inr (.inr (by simp only; omega)))⟩
    simp only [MutableValue.read, MutableContinuousValue.read, ConstantValue.bytes, List.drop_zero,
      ringContent]
    rw [window_of_wraps (by omega) (by omega),
      List.take_of_length_le (by rw [List.length_drop]; omega)]
    congr 2
    omega

/-! ## Adding and removing bytes -/

/-- `ring_push_get` makes room behind the content, and a write through the parts it returns fills
the room; it fails only when the room is too small, and then changes nothing. -/
theorem ringPushGet_spec {ring : Ring} (h : ring.Valid) {size : ℕ}
    (hsize : ring.size + size < 2 ^ 64) :
    (ringPushGet ring size).Ensures
      (fun value r => r = { ring with size := ring.size + size } ∧
        ring.size + size ≤ ring.capacity ∧ value.Placed ring.capacity ∧
        ∀ source : List UInt8, source.length = size →
          (r.write value source).Valid ∧
            ringContent (r.write value source) = ringContent ring ++ source)
      (fun _ r => r = ring ∧ ring.capacity < ring.size + size) := by
  rw [ringPushGet, ringPush, sizeAdd_eq hsize]
  split_ifs with hfit
  · set pushed : Ring := { ring with size := ring.size + size } with hpushed
    have hvalid : pushed.Valid := ⟨⟨h.length_p, hfit, h.begin_le⟩, h.capacity_pow⟩
    obtain ⟨value, hget, hview⟩ :=
      ringGet_spec hvalid.toSound hvalid.size_lt (show (⟨0, size⟩ : ValueLocation).limit ≤ _ by
        simp only [ValueLocation.limit, hpushed]; omega) true
    simp only [Outcome.andThen_ok, hget, Outcome.ofExcept_ok, Outcome.ensures_ok, true_and]
    refine ⟨hfit, hview.placed, fun source hsource => ⟨⟨⟨?_, hfit, h.begin_le⟩, h.capacity_pow⟩, ?_⟩⟩
    · exact (hview.length_write source hsource).trans h.length_p
    · have hold : (ringContent pushed).take ring.size = ringContent ring :=
        take_window (Nat.le_add_right _ _)
      have hstart : (⟨0, size⟩ : ValueLocation).start true pushed.size = ring.size := by
        simp only [ValueLocation.start, if_true, hpushed]
        omega
      rw [hview.content_write source hsource, hstart, overwrite, hold, hsource,
        List.drop_eq_nil_of_le (by rw [hvalid.length_content]), List.append_nil]
  · exact ⟨rfl, by omega⟩

/-- `ring_push_write` appends. -/
theorem ringPushWrite_spec {ring : Ring} (h : ring.Valid) {bytes : List UInt8}
    (hbytes : ring.size + bytes.length < 2 ^ 64) :
    (ringPushWrite ring bytes).Ensures
      (fun _ r => r.Valid ∧ ringContent r = ringContent ring ++ bytes ∧
        r.capacity = ring.capacity ∧ ring.size + bytes.length ≤ ring.capacity)
      (fun _ r => r = ring ∧ ring.capacity < ring.size + bytes.length) := by
  refine (ringPushGet_spec h hbytes).andThen (fun value r hr => ?_) fun _ _ hr => hr
  obtain ⟨rfl, hfit, -, hwrite⟩ := hr
  obtain ⟨hvalid, hcontent⟩ := hwrite bytes rfl
  exact ⟨hvalid, hcontent, rfl, hfit⟩

/-- `ring_push_write` appends when there is room. -/
theorem ringPushWrite_ok {ring : Ring} (h : ring.Valid) (bytes : List UInt8)
    (hfit : ring.size + bytes.length ≤ ring.capacity) :
    ∃ r, ringPushWrite ring bytes = .ok () r ∧ r.Valid ∧
      ringContent r = ringContent ring ++ bytes ∧ r.size = ring.size + bytes.length ∧
      r.capacity = ring.capacity := by
  have hcap := h.capacity_le
  obtain ⟨_, r, hr, hvalid, hcontent, hsame, -⟩ :=
    ((ringPushWrite_spec h (show ring.size + bytes.length < 2 ^ 64 by omega)).mono (fun _ _ hr => hr)
      fun _ _ hr => absurd hr.2 (by omega)).exists_ok
  refine ⟨r, hr, hvalid, hcontent, ?_, hsame⟩
  rw [← hvalid.length_content, hcontent, List.length_append, h.length_content]

/-- `ring_pop` removes the oldest bytes. -/
theorem ringPop_spec {ring : Ring} (h : ring.Valid) (size : ℕ) :
    (ringPop ring size).Ensures
      (fun _ r => r.Valid ∧ ringContent r = (ringContent ring).drop size ∧
        r.size = ring.size - size ∧ r.capacity = ring.capacity ∧ size ≤ ring.size)
      (fun _ r => r = ring ∧ ring.size < size) := by
  have hp := h.length_p
  have hs := h.size_le
  have hb := h.begin_le
  rw [ringPop]
  split_ifs with hle
  · refine ⟨⟨⟨hp, by simp only; omega, ?_⟩, h.capacity_pow⟩, ?_, rfl, rfl, hle⟩
    · simp only
      split_ifs <;> omega
    · rw [ringContent, ringContent, drop_window]
      by_cases hzero : ring.size - size = 0
      · simp [hzero]
      · simp only [if_neg hzero]
        split_ifs with hcont
        · rfl
        · have hwrapped : size - (ring.capacity - ring.begin) = ring.begin + size - ring.p.length := by
            omega
          rw [hwrapped, window_sub_length (by omega) (by omega)]
  · exact ⟨rfl, by omega⟩

/-- `ring_pop_read` returns the bytes it removes. -/
theorem ringPopRead_spec {ring : Ring} (h : ring.Valid) {size : ℕ} (hsize : size < 2 ^ 62) :
    (ringPopRead ring size).Ensures
      (fun bytes r => bytes = (ringContent ring).take size ∧ r.Valid ∧
        ringContent r = (ringContent ring).drop size ∧ r.size = ring.size - size ∧
        r.capacity = ring.capacity ∧ size ≤ ring.size)
      (fun _ r => r = ring ∧ ring.size < size) := by
  rw [ringPopRead]
  by_cases hle : size ≤ ring.size
  · obtain ⟨value, hget, hview⟩ :=
      ringGet_spec h.toSound h.size_lt (show (⟨0, size⟩ : ValueLocation).limit ≤ _ by
        simp only [ValueLocation.limit]; omega) false
    rw [hget, Outcome.ofExcept_ok, Outcome.andThen_ok]
    refine (ringPop_spec h size).andThen (fun _ r hr => ⟨?_, hr⟩) fun _ _ hr => hr
    simpa only [valueRead_eq, segment, ValueLocation.start, Bool.false_eq_true, if_false,
      List.drop_zero] using hview.bytes
  · have hout : ring.size < (⟨0, size⟩ : ValueLocation).limit := by
      simp only [ValueLocation.limit]; omega
    obtain ⟨e, he⟩ := ringGet_eq_error false hout (by simp only [ValueLocation.limit]; omega)
    rw [he]
    exact ⟨rfl, by omega⟩

/-- `ring_unpush` removes the newest bytes. -/
theorem ringUnpush_spec {ring : Ring} (h : ring.Valid) (size : ℕ) :
    (ringUnpush ring size).Ensures
      (fun _ r => r.Valid ∧ ringContent r = (ringContent ring).take (ring.size - size) ∧
        r.size = ring.size - size ∧ r.capacity = ring.capacity ∧ size ≤ ring.size)
      (fun _ r => r = ring ∧ ring.size < size) := by
  have hs := h.size_le
  rw [ringUnpush]
  split_ifs with hle
  · refine ⟨⟨⟨h.length_p, by simp only; omega, h.begin_le⟩, h.capacity_pow⟩, ?_, rfl, rfl, hle⟩
    rw [ringContent, ringContent, take_window (by omega)]
  · exact ⟨rfl, by omega⟩

/-- Room that `ring_push_get` makes need not be filled: what is left of it is given back. -/
theorem ringPushGet_fill {ring : Ring} (h : ring.Valid) {size : ℕ}
    (hsize : ring.size + size < 2 ^ 64) :
    (ringPushGet ring size).Ensures
      (fun value r => value.part0.size + value.part1.size = size ∧
        ∀ source : List UInt8, source.length ≤ size →
          ∃ r', ringUnpush (r.write value source) (size - source.length) = .ok () r' ∧ r'.Valid ∧
            ringContent r' = ringContent ring ++ source ∧ r'.size = ring.size + source.length)
      (fun _ r => r = ring ∧ ring.capacity < ring.size + size) := by
  have hp := h.length_p
  have hs := h.size_le
  have hb := h.begin_le
  rw [ringPushGet, ringPush, sizeAdd_eq hsize]
  by_cases hfit : ring.size + size ≤ ring.capacity
  swap
  · rw [if_neg hfit]
    exact ⟨rfl, by omega⟩
  rw [if_pos hfit]
  set pushed : Ring := { ring with size := ring.size + size } with hpushed
  have hvalid : pushed.Valid := ⟨⟨h.length_p, hfit, h.begin_le⟩, h.capacity_pow⟩
  have hsum : sizeAdd 0 size = size := by rw [sizeAdd_eq (by omega), Nat.zero_add]
  -- nothing was asked for, and no place is handed out
  by_cases hzero : size = 0
  · subst hzero
    have hget : ringGet pushed ⟨0, 0⟩ true = .ok MutableValue.zero := by
      simp only [ringGet, hsum, Nat.zero_le, if_true]
    simp only [Outcome.andThen_ok, hget, Outcome.ofExcept_ok, Outcome.ensures_ok]
    refine ⟨rfl, fun source hsource => ⟨ring, ?_, h, ?_, ?_⟩⟩
    · obtain rfl : source = [] := List.eq_nil_of_length_eq_zero (by omega)
      simp [ringUnpush, Ring.write, valueWrite, memcpy, hpushed]
    · rw [List.eq_nil_of_length_eq_zero (l := source) (by omega), List.append_nil]
    · omega
  · have hget : ringGet pushed ⟨0, size⟩ true = .ok (ringParts pushed ring.size size) := by
      have hoffset : pushed.size - size - 0 = ring.size := by simp only [hpushed]; omega
      simp only [ringGet, hsum, hzero, if_false, if_true, hoffset]
      rw [if_pos (by simp only [hpushed]; omega)]
    simp only [Outcome.andThen_ok, hget, Outcome.ofExcept_ok, Outcome.ensures_ok]
    refine ⟨?_, fun source hsource => ?_⟩
    · have hcapacity : pushed.capacity = ring.capacity := rfl
      have hbegin : pushed.begin = ring.begin := rfl
      simp only [ringParts]
      split_ifs <;> dsimp only <;> omega
    -- what is written stands behind the content, and what was not used is given back
    have hwrite : pushed.write (ringParts pushed ring.size size) source
        = { pushed with p := overwriteWindow ring.p (ring.begin + ring.size) source } := by
      rw [Ring.write, valueWrite_ringParts hvalid.toSound _ hsource]
    have hlength : (overwriteWindow ring.p (ring.begin + ring.size) source).length = ring.p.length :=
      length_overwriteWindow (by omega) (by omega)
    rw [hwrite, ringUnpush, if_pos (by simp only [hpushed]; omega)]
    refine ⟨_, rfl, ⟨⟨hlength.trans hp, by simp only [hpushed]; omega, hb⟩, h.capacity_pow⟩, ?_,
      by simp only [hpushed]; omega⟩
    have hcount : ring.size + size - (size - source.length) = ring.size + source.length := by omega
    have hfilled : window (overwriteWindow ring.p (ring.begin + ring.size) source) ring.begin
        (ring.size + source.length)
        = overwrite (window ring.p ring.begin (ring.size + source.length)) ring.size source :=
      window_overwriteWindow (by omega) (by omega) (by omega)
    simp only [ringContent, hpushed, hcount, hfilled]
    rw [overwrite, take_window (by omega), List.drop_eq_nil_of_le, List.append_nil]
    rw [length_window (by omega) (by omega)]

end Twinkleshine
