import Twinkleshine.ExtendedError
import Twinkleshine.Library.LittleEndian
import Twinkleshine.RingTheorems

/-!
# The metadata of responses

Reference: `struct Response` in `include/processor.h`, `processor_construct_response` in
`source/processor/processor.c`.

The metadata of every pending response is an entry of a byte ring: the bytes of a `struct Response`
followed by the method, the resource and the protocol of its request and a counter for each chunk.
-/

namespace Twinkleshine

open Library

/-- `struct Response` -/
structure Response where
  /-- Total response size -/
  streamSize : ℕ
  /-- Total metadata size, not including Response -/
  size : ℕ
  method : ValueLocation
  resource : ValueLocation
  protocol : ValueLocation
  chunks : ValueLocation
  keepAlive : Bool
  /-- Phony, print silently -/
  silent : Bool
  firstChunk : ℕ
deriving DecidableEq, Repr

/-- `ZERO_INIT` -/
def Response.zero : Response := ⟨0, 0, .zero, .zero, .zero, .zero, false, false, 0⟩

/-- `sizeof(struct Response)` -/
def sizeofResponse : ℕ := 88

/-! ## Bytes of the structure -/

def ValueLocation.encode (location : ValueLocation) : List UInt8 :=
  littleEndian 8 location.offset ++ littleEndian 8 location.size

/-- The memory of a `struct Response`. The two bytes of padding, which nobody reads, are zero. -/
def Response.encode (response : Response) : List UInt8 :=
  littleEndian 8 response.streamSize ++ littleEndian 8 response.size ++
    response.method.encode ++ response.resource.encode ++ response.protocol.encode ++
    response.chunks.encode ++
    [if response.keepAlive then 1 else 0, if response.silent then 1 else 0, 0, 0] ++
    littleEndian 4 response.firstChunk

/-- The number in the `width` bytes from `offset` on. -/
def readNumber (bytes : List UInt8) (offset width : ℕ) : ℕ :=
  ofLittleEndian ((bytes.drop offset).take width)

def ValueLocation.decode (bytes : List UInt8) (offset : ℕ) : ValueLocation :=
  ⟨readNumber bytes offset 8, readNumber bytes (offset + 8) 8⟩

/-- A `struct Response` read back from its memory. -/
def Response.decode (bytes : List UInt8) : Response where
  streamSize := readNumber bytes 0 8
  size := readNumber bytes 8 8
  method := .decode bytes 16
  resource := .decode bytes 32
  protocol := .decode bytes 48
  chunks := .decode bytes 64
  keepAlive := bytes.getD 80 0 != 0
  silent := bytes.getD 81 0 != 0
  firstChunk := readNumber bytes 84 4

/-- The fields fit their types. -/
structure Response.Small (response : Response) : Prop where
  streamSize : response.streamSize < 2 ^ 64
  size : response.size < 2 ^ 64
  method : response.method.offset < 2 ^ 64 ∧ response.method.size < 2 ^ 64
  resource : response.resource.offset < 2 ^ 64 ∧ response.resource.size < 2 ^ 64
  protocol : response.protocol.offset < 2 ^ 64 ∧ response.protocol.size < 2 ^ 64
  chunks : response.chunks.offset < 2 ^ 64 ∧ response.chunks.size < 2 ^ 64
  firstChunk : response.firstChunk < 2 ^ 32

@[simp] theorem ValueLocation.length_encode (location : ValueLocation) :
    location.encode.length = 16 := by
  simp [ValueLocation.encode]

@[simp] theorem Response.length_encode (response : Response) :
    response.encode.length = sizeofResponse := by
  simp [Response.encode, sizeofResponse]

theorem readNumber_eq {bytes : List UInt8} {offset width n : ℕ}
    (hbytes : (bytes.drop offset).take width = littleEndian width n) (hn : n < 256 ^ width) :
    readNumber bytes offset width = n := by
  rw [readNumber, hbytes, ofLittleEndian_littleEndian hn]

theorem ValueLocation.decode_eq {bytes : List UInt8} {offset : ℕ} {location : ValueLocation}
    (hbytes : (bytes.drop offset).take 16 = location.encode)
    (hn : location.offset < 2 ^ 64 ∧ location.size < 2 ^ 64) :
    ValueLocation.decode bytes offset = location := by
  have hfirst : (bytes.drop offset).take 8 = littleEndian 8 location.offset := by
    have := congrArg (List.take 8) hbytes
    rwa [List.take_take, ValueLocation.encode, List.take_left' (length_littleEndian _ _)] at this
  have hsecond : (bytes.drop (offset + 8)).take 8 = littleEndian 8 location.size := by
    have := congrArg (List.drop 8) hbytes
    rwa [List.drop_take, List.drop_drop, ValueLocation.encode,
      List.drop_left' (length_littleEndian _ _)] at this
  rw [ValueLocation.decode, readNumber_eq hfirst hn.1, readNumber_eq hsecond hn.2]

/-- A structure read back from its memory is the structure that was written. -/
theorem Response.decode_encode {response : Response} (h : response.Small) (rest : List UInt8) :
    Response.decode (response.encode ++ rest) = response := by
  have hlocation : ∀ location : ValueLocation, location.encode.length = 16 :=
    ValueLocation.length_encode
  rw [Response.decode, readNumber_eq _ h.streamSize, readNumber_eq _ h.size,
    ValueLocation.decode_eq _ h.method, ValueLocation.decode_eq _ h.resource,
    ValueLocation.decode_eq _ h.protocol, ValueLocation.decode_eq _ h.chunks,
    readNumber_eq _ h.firstChunk]
  · obtain ⟨streamSize, size, method, resource, protocol, chunks, keepAlive, silent, firstChunk⟩ :=
      response
    simp only [Response.mk.injEq, true_and, and_true]
    constructor
    · cases keepAlive <;> simp [Response.encode, List.getElem?_append, hlocation]
    · cases silent <;> simp [Response.encode, List.getElem?_append, hlocation]
  all_goals
    simp (disch := simp [hlocation]) [Response.encode, List.drop_append, List.drop_eq_nil_of_le,
      hlocation]

/-! ## Entries -/

/-- The entry of a response in the queue: its metadata, the words of its request, and the counters
of its chunks. -/
structure ResponseEntry where
  response : Response
  method : List UInt8
  resource : List UInt8
  protocol : List UInt8
  chunks : List UInt8
deriving DecidableEq, Repr

/-- What follows the structure in the queue. -/
def ResponseEntry.words (entry : ResponseEntry) : List UInt8 :=
  entry.method ++ entry.resource ++ entry.protocol ++ entry.chunks

/-- The bytes of an entry. -/
def ResponseEntry.bytes (entry : ResponseEntry) : List UInt8 := entry.response.encode ++ entry.words

/-- The structure of an entry describes the entry, and fits its types. -/
structure ResponseEntry.WellFormed (entry : ResponseEntry) : Prop where
  small : entry.response.Small
  method : entry.response.method = ⟨0, entry.method.length⟩
  resource : entry.response.resource = ⟨entry.method.length, entry.resource.length⟩
  protocol :
    entry.response.protocol = ⟨entry.method.length + entry.resource.length, entry.protocol.length⟩
  chunks : entry.response.chunks
    = ⟨entry.method.length + entry.resource.length + entry.protocol.length, entry.chunks.length⟩
  size : entry.response.size = entry.words.length

theorem ResponseEntry.length_bytes (entry : ResponseEntry) :
    entry.bytes.length = sizeofResponse + entry.words.length := by
  rw [bytes, List.length_append, Response.length_encode]

/-- The head of a queue of entries is read back. -/
theorem ResponseEntry.WellFormed.decode {entry : ResponseEntry} (h : entry.WellFormed)
    (rest : List UInt8) : Response.decode (entry.bytes ++ rest) = entry.response := by
  rw [ResponseEntry.bytes, List.append_assoc]
  exact Response.decode_encode h.small _

/-! ## Construction -/

/-- The loop over `VALUE_PARTS` that pushes both parts of a value. -/
def ringPushParts (ring : Ring) (value : ConstantValue) : Outcome Error Ring Unit :=
  (ringPushWrite ring value.part0).andThen fun _ ring => ringPushWrite ring value.part1

/-- The metadata `processor_construct_response` fills in. -/
def constructedResponse (streamSize : ℕ) (keepAlive : Bool) (firstChunk chunkNumber : ℕ)
    (method resource protocol : ConstantValue) : Response where
  streamSize := streamSize
  keepAlive := keepAlive
  firstChunk := firstChunk
  silent := false
  method := ⟨0, valueSize method⟩
  resource := ⟨valueSize method, valueSize resource⟩
  protocol := ⟨valueSize method + valueSize resource, valueSize protocol⟩
  chunks := ⟨valueSize method + valueSize resource + valueSize protocol, chunkNumber⟩
  size := valueSize method + valueSize resource + valueSize protocol + chunkNumber

/-- The pushes of `processor_construct_response`, for which room is reserved. -/
def pushResponse (responseQueue : Ring) (response : Response)
    (method resource protocol : ConstantValue) : Outcome Error Ring Unit :=
  (ringPushWrite responseQueue response.encode).andThen fun _ queue =>
  (ringPushParts queue method).andThen fun _ queue =>
  (ringPushParts queue resource).andThen fun _ queue =>
  (ringPushParts queue protocol).andThen fun _ queue =>
  (ringPushGet queue response.chunks.size).andThen fun chunksValue queue =>
    .ok () (queue.write chunksValue (List.replicate response.chunks.size 0))

/-- `processor_construct_response` -/
def processorConstructResponse (responseQueue : Ring) (realloc : Realloc) (streamSize : ℕ)
    (keepAlive : Bool) (firstChunk chunkNumber : ℕ) (method resource protocol : ConstantValue) :
    Outcome ExError Ring Response :=
  let response :=
    constructedResponse streamSize keepAlive firstChunk chunkNumber method resource protocol
  ((ringReserve responseQueue (responseQueue.size + sizeofResponse + response.size) realloc).mapError
      (extend (.sendShutdownLog .unknown))).andThen fun _ queue =>
    ((pushResponse queue response method resource protocol).mapError (extend .die)).andThen
      fun _ queue => .ok response queue

/-- The metadata that is returned is the metadata that was filled in. -/
theorem processorConstructResponse_value {queue r : Ring} {realloc : Realloc} {streamSize : ℕ}
    {keepAlive : Bool} {firstChunk chunkNumber : ℕ} {method resource protocol : ConstantValue}
    {response : Response}
    (h : processorConstructResponse queue realloc streamSize keepAlive firstChunk chunkNumber method
      resource protocol = .ok response r) :
    response = constructedResponse streamSize keepAlive firstChunk chunkNumber method resource protocol := by
  rw [processorConstructResponse, Outcome.andThen_eq_ok] at h
  obtain ⟨_, _, -, h⟩ := h
  rw [Outcome.andThen_eq_ok] at h
  obtain ⟨_, _, -, h⟩ := h
  injection h with hresponse
  exact hresponse.symm

/-- Both parts of a value are appended when there is room. -/
theorem ringPushParts_ok {ring : Ring} (h : ring.Valid) (value : ConstantValue)
    (hfit : ring.size + value.bytes.length ≤ ring.capacity) :
    ∃ r, ringPushParts ring value = .ok () r ∧ r.Valid ∧
      ringContent r = ringContent ring ++ value.bytes ∧ r.size = ring.size + value.bytes.length ∧
      r.capacity = ring.capacity := by
  have hlength : value.bytes.length = value.part0.length + value.part1.length := by
    rw [ConstantValue.bytes, List.length_append]
  obtain ⟨r, hr, hvalid, hcontent, hsize, hsame⟩ :=
    ringPushWrite_ok h value.part0 (by omega)
  obtain ⟨r', hr', hvalid', hcontent', hsize', hsame'⟩ :=
    ringPushWrite_ok hvalid value.part1 (by omega)
  refine ⟨r', by rw [ringPushParts, hr, Outcome.andThen_ok, hr'], hvalid', ?_, by omega,
    hsame'.trans hsame⟩
  rw [hcontent', hcontent, ConstantValue.bytes, List.append_assoc]

/-- The entry that is constructed. -/
def constructedEntry (streamSize : ℕ) (keepAlive : Bool) (firstChunk chunkNumber : ℕ)
    (method resource protocol : ConstantValue) : ResponseEntry where
  response := constructedResponse streamSize keepAlive firstChunk chunkNumber method resource protocol
  method := method.bytes
  resource := resource.bytes
  protocol := protocol.bytes
  chunks := List.replicate chunkNumber 0

/-- The constructed metadata describes the entry. -/
theorem constructedEntry_wellFormed {streamSize : ℕ} {keepAlive : Bool} {firstChunk chunkNumber : ℕ}
    {method resource protocol : ConstantValue} (hstream : streamSize < 2 ^ 64)
    (hfirst : firstChunk < 2 ^ 32)
    (hsize : method.bytes.length + resource.bytes.length + protocol.bytes.length + chunkNumber
      < 2 ^ 64) :
    (constructedEntry streamSize keepAlive firstChunk chunkNumber method resource
      protocol).WellFormed := by
  constructor
  · constructor <;> simp only [constructedEntry, constructedResponse, valueSize_eq] <;> omega
  all_goals
    simp only [constructedEntry, constructedResponse, valueSize_eq, ResponseEntry.words,
      List.length_append, List.length_replicate]

/-- With room for it, the bytes of an entry are appended. -/
theorem pushResponse_ok {queue : Ring} (h : queue.Valid) (response : Response)
    (method resource protocol : ConstantValue)
    (hfit : queue.size + (sizeofResponse + (method.bytes.length + resource.bytes.length +
      protocol.bytes.length + response.chunks.size)) ≤ queue.capacity) :
    ∃ r, pushResponse queue response method resource protocol = .ok () r ∧ r.Valid ∧
      ringContent r = ringContent queue ++ (⟨response, method.bytes, resource.bytes,
        protocol.bytes, List.replicate response.chunks.size 0⟩ : ResponseEntry).bytes := by
  have hencode := response.length_encode
  have hcap := h.capacity_le
  obtain ⟨r₁, h₁, hvalid₁, hcontent₁, hsize₁, hcap₁⟩ :=
    ringPushWrite_ok h response.encode (by omega)
  obtain ⟨r₂, h₂, hvalid₂, hcontent₂, hsize₂, hcap₂⟩ :=
    ringPushParts_ok hvalid₁ method (by omega)
  obtain ⟨r₃, h₃, hvalid₃, hcontent₃, hsize₃, hcap₃⟩ :=
    ringPushParts_ok hvalid₂ resource (by omega)
  obtain ⟨r₄, h₄, hvalid₄, hcontent₄, hsize₄, hcap₄⟩ :=
    ringPushParts_ok hvalid₃ protocol (by omega)
  obtain ⟨value, r₅, h₅, rfl, -, -, hwrite⟩ :=
    ((ringPushGet_spec hvalid₄ (show r₄.size + response.chunks.size < 2 ^ 64 by omega)).mono
      (fun _ _ hr => hr) fun _ _ hr => absurd hr.2 (by omega)).exists_ok
  obtain ⟨hvalid₅, hcontent₅⟩ :=
    hwrite (List.replicate response.chunks.size 0) List.length_replicate
  refine ⟨_, ?_, hvalid₅, ?_⟩
  · simp only [pushResponse, h₁, h₂, h₃, h₄, h₅, Outcome.andThen_ok]
  · rw [hcontent₅, hcontent₄, hcontent₃, hcontent₂, hcontent₁]
    simp only [ResponseEntry.bytes, ResponseEntry.words, List.append_assoc]

/-- `processor_construct_response` appends one entry to the queue. It fails only when the allocator
refuses, and then leaves the queue as it was; it hangs only when the entry does not fit the address
space. -/
theorem processorConstructResponse_spec {queue : Ring} (h : queue.Valid) (realloc : Realloc)
    (streamSize : ℕ) (keepAlive : Bool) (firstChunk chunkNumber : ℕ)
    (method resource protocol : ConstantValue) :
    (processorConstructResponse queue realloc streamSize keepAlive firstChunk chunkNumber method
        resource protocol).Meets
      (2 ^ 63 < queue.size + sizeofResponse + (method.bytes.length + resource.bytes.length +
        protocol.bytes.length + chunkNumber))
      (fun response r => r.Valid ∧
        response = (constructedEntry streamSize keepAlive firstChunk chunkNumber method resource
          protocol).response ∧
        ringContent r = ringContent queue ++ (constructedEntry streamSize keepAlive firstChunk
          chunkNumber method resource protocol).bytes ∧
        method.bytes.length + resource.bytes.length + protocol.bytes.length + chunkNumber ≤ 2 ^ 63)
      (fun e r => r = queue ∧ realloc = none ∧ e.eef = .sendShutdownLog .unknown) := by
  rw [processorConstructResponse]
  generalize hresponse : constructedResponse streamSize keepAlive firstChunk chunkNumber method
    resource protocol = response
  have hrsize : response.size = method.bytes.length + resource.bytes.length +
      protocol.bytes.length + chunkNumber := by
    simp only [← hresponse, constructedResponse, valueSize_eq]
  have hchunks : response.chunks.size = chunkNumber := by rw [← hresponse, constructedResponse]
  have hreserve := ringReserve_meets h (queue.size + sizeofResponse + response.size) realloc
  rw [hrsize] at hreserve ⊢
  refine (hreserve.mapError _).andThen (fun _ r hr => ?_) fun _ _ he => ?_
  · have hlimit := hr.1.capacity_le
    have hfit : r.size + (sizeofResponse + (method.bytes.length + resource.bytes.length +
        protocol.bytes.length + response.chunks.size)) ≤ r.capacity := by
      rw [hr.2.2.1, hchunks]
      exact Nat.le_trans (by omega) hr.2.2.2.1
    refine (pushResponse_ok hr.1 response method resource protocol hfit).elim fun r' hr' => ?_
    rw [hr'.1]
    refine ⟨hr'.2.1, by rw [constructedEntry, hresponse], ?_, by omega⟩
    rw [hr'.2.2, hr.2.1, constructedEntry, hresponse, hchunks]
  · obtain ⟨e, rfl, rfl, hnone⟩ := he
    exact ⟨rfl, hnone, rfl⟩

/-- With words of a moderate size, it hangs only when the queue fills the address space. -/
theorem processorConstructResponse_meets {queue : Ring} (h : queue.Valid) {realloc : Realloc}
    {streamSize : ℕ} {keepAlive : Bool} {firstChunk chunkNumber : ℕ}
    {method resource protocol : ConstantValue}
    (hsize : method.bytes.length + resource.bytes.length + protocol.bytes.length + chunkNumber
      < 2 ^ 61) :
    (processorConstructResponse queue realloc streamSize keepAlive firstChunk chunkNumber method
        resource protocol).Meets (2 ^ 61 ≤ queue.size)
      (fun response r => r.Valid ∧
        response = (constructedEntry streamSize keepAlive firstChunk chunkNumber method resource
          protocol).response ∧
        ringContent r = ringContent queue ++ (constructedEntry streamSize keepAlive firstChunk
          chunkNumber method resource protocol).bytes)
      (fun e r => r = queue ∧ realloc = none ∧ e.eef = .sendShutdownLog .unknown) := by
  have hsizeof : sizeofResponse = 88 := rfl
  refine ((processorConstructResponse_spec h realloc streamSize keepAlive firstChunk chunkNumber
    method resource protocol).of_imp (by omega)).mono (fun _ _ hr => ?_) fun _ _ => id
  exact ⟨hr.1, hr.2.1, hr.2.2.1⟩

end Twinkleshine
