import Twinkleshine.Library.Transition
import Twinkleshine.RingTheorems

/-!
# A ring is a bounded queue of bytes

`BoundedFifo` is what a ring is for: a queue of bytes that holds no more than its capacity, said
without blocks, offsets or wrapping. `FifoStep` says how a call may change the queue and answer, and
`ringRun_refines` that every sequence of calls on a ring is such a sequence of steps.
-/

namespace Twinkleshine

open Library

/-! ## The abstract queue -/

/-- A queue of bytes, oldest first, that fits its capacity. -/
structure BoundedFifo where
  capacity : ℕ
  data : List UInt8
  fits : data.length ≤ capacity

/-- The queue a ring starts with. -/
def BoundedFifo.empty : BoundedFifo := ⟨0, [], le_refl _⟩

/-- A call of a ring operation. `pushGet` is followed by filling the returned parts. -/
inductive RingCall where
  | reserve (capacity : ℕ) (realloc : Realloc)
  | pushWrite (bytes : List UInt8)
  | pushGet (bytes : List UInt8)
  | pop (size : ℕ)
  | popRead (size : ℕ)
  | unpush (size : ℕ)

/-- What a caller sees of a call. -/
inductive RingAnswer where
  | returned (bytes : List UInt8)
  | failed
deriving DecidableEq, Repr

/-- The arguments are in range: no capacity over `2 ^ 63`, no size from `2 ^ 62` on. -/
def RingCall.InBounds : RingCall → Prop
  | reserve capacity _ => capacity ≤ 2 ^ 63
  | pushWrite bytes | pushGet bytes => bytes.length < 2 ^ 62
  | pop size | popRead size | unpush size => size < 2 ^ 62

/-- How a call changes the queue when it is answered. -/
inductive FifoStep : BoundedFifo → RingCall × RingAnswer → BoundedFifo → Prop where
  | reserve {q q' : BoundedFifo} {capacity : ℕ} {realloc : Realloc} (data : q'.data = q.data)
      (requested : capacity ≤ q'.capacity) (grown : q.capacity ≤ q'.capacity) :
      FifoStep q (.reserve capacity realloc, .returned []) q'
  | reserveFailed {q : BoundedFifo} {capacity : ℕ} :
      FifoStep q (.reserve capacity none, .failed) q
  | pushWrite {q q' : BoundedFifo} {bytes : List UInt8} (data : q'.data = q.data ++ bytes)
      (same : q'.capacity = q.capacity) : FifoStep q (.pushWrite bytes, .returned []) q'
  | pushWriteFailed {q : BoundedFifo} {bytes : List UInt8}
      (full : q.capacity < q.data.length + bytes.length) :
      FifoStep q (.pushWrite bytes, .failed) q
  | pushGet {q q' : BoundedFifo} {bytes : List UInt8} (data : q'.data = q.data ++ bytes)
      (same : q'.capacity = q.capacity) : FifoStep q (.pushGet bytes, .returned []) q'
  | pushGetFailed {q : BoundedFifo} {bytes : List UInt8}
      (full : q.capacity < q.data.length + bytes.length) : FifoStep q (.pushGet bytes, .failed) q
  | pop {q q' : BoundedFifo} {size : ℕ} (enough : size ≤ q.data.length)
      (data : q'.data = q.data.drop size) (same : q'.capacity = q.capacity) :
      FifoStep q (.pop size, .returned []) q'
  | popFailed {q : BoundedFifo} {size : ℕ} (short : q.data.length < size) :
      FifoStep q (.pop size, .failed) q
  | popRead {q q' : BoundedFifo} {size : ℕ} (enough : size ≤ q.data.length)
      (data : q'.data = q.data.drop size) (same : q'.capacity = q.capacity) :
      FifoStep q (.popRead size, .returned (q.data.take size)) q'
  | popReadFailed {q : BoundedFifo} {size : ℕ} (short : q.data.length < size) :
      FifoStep q (.popRead size, .failed) q
  | unpush {q q' : BoundedFifo} {size : ℕ} (enough : size ≤ q.data.length)
      (data : q'.data = q.data.take (q.data.length - size)) (same : q'.capacity = q.capacity) :
      FifoStep q (.unpush size, .returned []) q'
  | unpushFailed {q : BoundedFifo} {size : ℕ} (short : q.data.length < size) :
      FifoStep q (.unpush size, .failed) q

/-- A call that fails leaves the queue unchanged. -/
theorem FifoStep.eq_of_failed {q q' : BoundedFifo} {call : RingCall}
    (h : FifoStep q (call, .failed) q') : q' = q := by
  cases h <;> rfl

/-! ## Runs of a ring -/

/-- One call on a ring; the value is the bytes it hands to the caller. -/
def ringCall (ring : Ring) : RingCall → Outcome Error Ring (List UInt8)
  | .reserve capacity realloc =>
    (ringReserve ring capacity realloc).andThen fun _ ring => .ok [] ring
  | .pushWrite bytes => (ringPushWrite ring bytes).andThen fun _ ring => .ok [] ring
  | .pushGet bytes =>
    (ringPushGet ring bytes.length).andThen fun value ring => .ok [] (ring.write value bytes)
  | .pop size => (ringPop ring size).andThen fun _ ring => .ok [] ring
  | .popRead size => ringPopRead ring size
  | .unpush size => (ringUnpush ring size).andThen fun _ ring => .ok [] ring

/-- A sequence of calls with its answers, `none` when a call never returns. -/
def ringRun (ring : Ring) : List RingCall → Option (List (RingCall × RingAnswer) × Ring)
  | [] => some ([], ring)
  | call :: calls =>
    match ringCall ring call with
    | .ok bytes ring' =>
      (ringRun ring' calls).map fun (log, last) => ((call, .returned bytes) :: log, last)
    | .error _ ring' =>
      (ringRun ring' calls).map fun (log, last) => ((call, .failed) :: log, last)
    | .hang => none

/-- A ring represents a queue: they agree on the bytes and the capacity, whatever is read from the
ring is the segment of the queue, and what is read lies inside the allocation. -/
structure RefinesFifo (ring : Ring) (q : BoundedFifo) : Prop where
  capacity_eq : ring.capacity = q.capacity
  size_eq : ring.size = q.data.length
  size_le : ring.size ≤ ring.capacity
  begin_le : ring.begin ≤ ring.capacity
  allocated : ring.p.length = ring.capacity
  getAll : ((ringGetAll ring).read ring.p).bytes = q.data ∧ (ringGetAll ring).Placed ring.capacity
  get : ∀ (location : ValueLocation) (latest : Bool), location.limit ≤ q.data.length →
    ∃ value, ringGet ring location latest = .ok value ∧
      (value.read ring.p).bytes = segment q.data location latest ∧ value.Placed ring.capacity

/-- The queue of a valid ring. -/
def Ring.Valid.fifo {ring : Ring} (h : ring.Valid) : BoundedFifo :=
  ⟨ring.capacity, ringContent ring, h.length_content.trans_le h.size_le⟩

/-- A valid ring represents its queue. -/
theorem Ring.Valid.refinesFifo {ring : Ring} (h : ring.Valid) : RefinesFifo ring h.fifo where
  capacity_eq := rfl
  size_eq := h.length_content.symm
  size_le := h.size_le
  begin_le := h.begin_le
  allocated := h.length_p
  getAll := ringGetAll_spec h.toSound
  get location latest hloc := by
    obtain ⟨value, hget, hview⟩ :=
      ringGet_spec h.toSound h.size_lt (hloc.trans_eq h.length_content) latest
    exact ⟨value, hget, hview.bytes, hview.placed⟩

/-- Sizes in bounds do not wrap around. -/
theorem Ring.Valid.room {ring : Ring} (h : ring.Valid) {size : ℕ} (hsize : size < 2 ^ 62) :
    ring.size + size < 2 ^ 64 := by
  have := h.size_le
  have := h.capacity_le
  omega

/-- One call on a valid ring is one step of its queue, and leaves a valid ring. -/
theorem ringCall_step {ring : Ring} (h : ring.Valid) {call : RingCall} (hcall : call.InBounds) :
    (ringCall ring call).Ensures
      (fun bytes r => ∃ h' : r.Valid, FifoStep h.fifo (call, .returned bytes) h'.fifo)
      (fun _ r => ∃ h' : r.Valid, FifoStep h.fifo (call, .failed) h'.fifo) := by
  have hlen : h.fifo.data.length = ring.size := h.length_content
  cases call with
  | reserve capacity realloc =>
    refine (ringReserve_spec h hcall realloc).andThen (fun _ r hr => ?_) fun _ r hr => ?_
    · obtain ⟨hvalid, hdata, -, hrequested, hgrown⟩ := hr
      exact ⟨hvalid, .reserve hdata hrequested hgrown⟩
    · obtain ⟨rfl, rfl⟩ := hr
      exact ⟨h, .reserveFailed⟩
  | pushWrite bytes =>
    refine (ringPushWrite_spec h (h.room hcall)).andThen (fun _ r hr => ?_) fun _ r hr => ?_
    · obtain ⟨hvalid, hdata, hsame, -⟩ := hr
      exact ⟨hvalid, .pushWrite hdata hsame⟩
    · obtain ⟨rfl, hfull⟩ := hr
      exact ⟨h, .pushWriteFailed (hlen ▸ hfull)⟩
  | pushGet bytes =>
    refine (ringPushGet_spec h (h.room hcall)).andThen (fun value r hr => ?_) fun _ r hr => ?_
    · obtain ⟨rfl, -, -, hwrite⟩ := hr
      obtain ⟨hvalid, hdata⟩ := hwrite bytes rfl
      exact ⟨hvalid, .pushGet hdata rfl⟩
    · obtain ⟨rfl, hfull⟩ := hr
      exact ⟨h, .pushGetFailed (hlen ▸ hfull)⟩
  | pop size =>
    refine (ringPop_spec h size).andThen (fun _ r hr => ?_) fun _ r hr => ?_
    · obtain ⟨hvalid, hdata, -, hsame, henough⟩ := hr
      exact ⟨hvalid, .pop (hlen ▸ henough) hdata hsame⟩
    · obtain ⟨rfl, hshort⟩ := hr
      exact ⟨h, .popFailed (hlen ▸ hshort)⟩
  | popRead size =>
    refine (ringPopRead_spec h hcall).mono (fun bytes r hr => ?_) fun _ r hr => ?_
    · obtain ⟨rfl, hvalid, hdata, -, hsame, henough⟩ := hr
      exact ⟨hvalid, .popRead (hlen ▸ henough) hdata hsame⟩
    · obtain ⟨rfl, hshort⟩ := hr
      exact ⟨h, .popReadFailed (hlen ▸ hshort)⟩
  | unpush size =>
    refine (ringUnpush_spec h size).andThen (fun _ r hr => ?_) fun _ r hr => ?_
    · obtain ⟨hvalid, hdata, -, hsame, henough⟩ := hr
      exact ⟨hvalid, .unpush (hlen ▸ henough) (hlen ▸ hdata) hsame⟩
    · obtain ⟨rfl, hshort⟩ := hr
      exact ⟨h, .unpushFailed (hlen ▸ hshort)⟩

/-- Every sequence of calls on a valid ring is answered, and is a run of its queue. -/
theorem ringRun_of_valid {ring : Ring} (h : ring.Valid) (calls : List RingCall)
    (hcalls : ∀ call ∈ calls, call.InBounds) :
    ∃ log last, ringRun ring calls = some (log, last) ∧ log.map Prod.fst = calls ∧
      ∃ h' : last.Valid, Runs FifoStep h.fifo log h'.fifo := by
  induction calls generalizing ring with
  | nil => exact ⟨[], ring, rfl, rfl, h, .nil _⟩
  | cons call calls ih =>
    have hstep := ringCall_step h (hcalls call List.mem_cons_self)
    have htail : ∀ c ∈ calls, c.InBounds := fun c hc => hcalls c (List.mem_cons_of_mem _ hc)
    rw [ringRun]
    cases hr : ringCall ring call with
    | ok bytes ring' =>
      obtain ⟨h', hfifo⟩ := hstep.of_eq_ok hr
      obtain ⟨log, last, hrun, hlog, hlast, hruns⟩ := ih h' htail
      exact ⟨_, last, by simp only [hrun, Option.map_some], by rw [List.map_cons, hlog], hlast,
        .cons hfifo hruns⟩
    | error e ring' =>
      obtain ⟨h', hfifo⟩ := hstep.of_eq_error hr
      obtain ⟨log, last, hrun, hlog, hlast, hruns⟩ := ih h' htail
      exact ⟨_, last, by simp only [hrun, Option.map_some], by rw [List.map_cons, hlog], hlast,
        .cons hfifo hruns⟩
    | hang =>
      rw [hr] at hstep
      exact hstep.elim

/-- Every sequence of calls on the zero ring is answered as a bounded queue of bytes answers it, and
the ring it leaves represents the queue. -/
theorem ringRun_refines (calls : List RingCall) (hcalls : ∀ call ∈ calls, call.InBounds) :
    ∃ log ring queue, ringRun Ring.zero calls = some (log, ring) ∧ log.map Prod.fst = calls ∧
      Runs FifoStep BoundedFifo.empty log queue ∧ RefinesFifo ring queue := by
  obtain ⟨log, ring, hrun, hlog, hvalid, hruns⟩ := ringRun_of_valid Ring.zero_valid calls hcalls
  exact ⟨log, ring, hvalid.fifo, hrun, hlog, hruns, hvalid.refinesFifo⟩

/-- Calls that wrap a ring of four bytes, one of them too large. -/
def wrappingCalls : List RingCall :=
  [.reserve 4 (some fun _ => 0), .pushWrite [1, 2, 3], .popRead 2, .pushGet [4, 5, 6],
    .pushWrite [7], .reserve 5 none, .unpush 1]

theorem ringRun_refines_wrapping :
    ∃ log ring queue, ringRun Ring.zero wrappingCalls = some (log, ring) ∧
      log.map Prod.fst = wrappingCalls ∧ Runs FifoStep BoundedFifo.empty log queue ∧
      RefinesFifo ring queue :=
  ringRun_refines wrappingCalls (by simp [wrappingCalls, RingCall.InBounds])

end Twinkleshine
