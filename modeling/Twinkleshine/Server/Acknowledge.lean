import Twinkleshine.Server.Messages
import Twinkleshine.Server.Owner

/-!
# Acknowledgements

Reference: `source/server/receive.c`.

A datagram that is no request should be the number of a chunk in digits and an end of line.
`server_receive_data_guppy` reads the number, and then demands that what stands behind it is anything but
an end of line and a null byte.
-/

namespace Twinkleshine

open Library

variable {i : ℕ} {realloc : Realloc} {v : Visit}

/-! ## What an acknowledgement is -/

/-- A datagram that is this number in digits and an end of line. -/
def IsAcknowledgement (datagram : List UInt8) (number : ℕ) : Prop :=
  ∃ digits, digits ≠ [] ∧ digits.all isDecimal = true ∧ datagram = digits ++ [13, 10] ∧
    digitsNumber digits = number

/-- The datagram in the buffer; what stands behind it is left of earlier ones. -/
def Server.datagram (s : Server) : List UInt8 := s.shortRequestMessage.take s.shortRequestMessageSize

/-- Chunk `k` of client `i` is marked as acknowledged, and the message is taken. -/
structure ChunkMarked (i k : ℕ) (s t : Server) : Prop where
  client : ∃ queue : Ring, t.client i = { s.client i with responseQueue := queue } ∧
    ringContent queue = overwrite (ringContent (s.client i).responseQueue)
      ((chunkCounters s i).offset + k) [255]
  owner : t.shortRequestMessageOwner = none

/-- Exactly the acknowledgements of chunks of the current response are accepted, and their chunks are
marked; it does not matter what is left of earlier datagrams. -/
structure AcknowledgesRightly (i : ℕ) (realloc : Realloc) (v : Visit) : Prop where
  marks : ∀ k < (v.server.client i).response.chunks.size,
    IsAcknowledgement v.server.datagram ((v.server.client i).response.firstChunk + k) →
      ∃ w, serverReceiveDataGuppy i realloc v = .ok () w ∧ ChunkMarked i k v.server w.server
  rejects : (∀ k < (v.server.client i).response.chunks.size,
      ¬ IsAcknowledgement v.server.datagram ((v.server.client i).response.firstChunk + k)) →
    ∃ e w, serverReceiveDataGuppy i realloc v = .error e w

/-- The counters of the current response are in the queue. -/
structure PendingChunks (s : Server) (i : ℕ) : Prop where
  valid : (s.client i).responseQueue.Valid
  counters : (chunkCounters s i).limit ≤ (s.client i).responseQueue.size
  window : (s.client i).response.firstChunk + (s.client i).response.chunks.size < 2 ^ 64

/-- What stands behind the number in the buffer are an end of line and a null byte. The bytes behind what was
ever received into the buffer are null bytes, too. -/
def EndsInNull (tail : List UInt8) : Prop := (tail ++ [0, 0, 0]).take 3 = [13, 10, 0]

instance (tail : List UInt8) : Decidable (EndsInNull tail) := by
  unfold EndsInNull
  infer_instance

/-- The number that is read from the buffer is not one of a chunk; or else the datagram is this number
and an end of line, or a null byte follows an end of line behind the number, but not both. -/
def ReadRightly (i : ℕ) (s : Server) : Prop :=
  (s.client i).response.firstChunk ≤ (strtoul s.shortRequestMessage).1 →
    (strtoul s.shortRequestMessage).1
        < (s.client i).response.firstChunk + (s.client i).response.chunks.size →
      (IsAcknowledgement s.datagram (strtoul s.shortRequestMessage).1 ↔
        ¬ EndsInNull (strtoul s.shortRequestMessage).2)

/-! ## What is read -/

/-- The number of an acknowledgement is read as it is. -/
theorem IsAcknowledgement.strtoul_eq {s : Server} {number : ℕ}
    (h : IsAcknowledgement s.datagram number) (hnumber : number < 2 ^ 64) :
    (strtoul s.shortRequestMessage).1 = number := by
  obtain ⟨digits, hne, hdigits, heq, rfl⟩ := h
  have hmessage : s.shortRequestMessage
      = digits ++ ([13, 10] ++ s.shortRequestMessage.drop s.shortRequestMessageSize) := by
    rw [← List.append_assoc, ← heq, Server.datagram, List.take_append_drop]
  rw [hmessage, strtoul_digits hne hdigits (fun c hc => ?_) hnumber]
  obtain rfl : 13 = c := Option.some.inj hc
  rfl

theorem acknowledgementPasses_iff {response : Response} (number : ℕ) (tail : List UInt8)
    (hwindow : response.firstChunk + response.chunks.size < 2 ^ 64) :
    acknowledgementPasses response number tail = true ↔ ¬ EndsInNull tail ∧
      response.firstChunk ≤ number ∧ number < response.firstChunk + response.chunks.size := by
  rw [acknowledgementPasses, sizeAdd_eq hwindow]
  simp [EndsInNull, and_assoc]

/-- The counter of a chunk that is in the window is overwritten. -/
theorem acknowledgeChunk_spec {s : Server} (h : PendingChunks s i) {number : ℕ}
    (hfirst : (s.client i).response.firstChunk ≤ number)
    (hlast : number < (s.client i).response.firstChunk + (s.client i).response.chunks.size) :
    ∃ queue : Ring, acknowledgeChunk number (s.client i)
        = .ok () { s.client i with responseQueue := queue } ∧ queue.Valid ∧
      ringContent queue = overwrite (ringContent (s.client i).responseQueue)
        ((chunkCounters s i).offset + (number - (s.client i).response.firstChunk)) [255] := by
  have hsize := h.valid.size_le
  have hcapacity := h.valid.capacity_le
  have hcounters : sizeofResponse + (s.client i).response.chunks.offset
      + (s.client i).response.chunks.size ≤ (s.client i).responseQueue.size := h.counters
  have hoffset : sizeAdd (sizeAdd sizeofResponse (s.client i).response.chunks.offset)
      (sizeSub number (s.client i).response.firstChunk)
      = (chunkCounters s i).offset + (number - (s.client i).response.firstChunk) := by
    have hwindow := h.window
    have hbase : sizeAdd sizeofResponse (s.client i).response.chunks.offset
        = sizeofResponse + (s.client i).response.chunks.offset := sizeAdd_eq (by omega)
    rw [hbase, sizeSub_eq hfirst (by omega), sizeAdd_eq (by omega)]
    rfl
  have hlimit : (⟨(chunkCounters s i).offset + (number - (s.client i).response.firstChunk), 1⟩ :
      ValueLocation).limit ≤ (s.client i).responseQueue.size := by
    rw [ValueLocation.limit, chunkCounters]
    dsimp only
    omega
  obtain ⟨value, hget, hview⟩ := ringGet_spec h.valid.toSound h.valid.size_lt hlimit false
  refine ⟨_, ?_, hview.valid_write h.valid rfl, hview.content_write [255] rfl⟩
  rw [acknowledgeChunk]
  dsimp only
  rw [hoffset, hget]

/-- What `server_receive_data_guppy` does to a message that is no request. -/
theorem serverReceiveDataGuppy_acknowledges (realloc : Realloc)
    (hi : i < v.server.clients.elements.length)
    (howner : v.server.shortRequestMessageOwner = some (v.server.pointer i))
    (hrequest : v.server.messageIsRequest = false) (h : PendingChunks v.server i) :
    if acknowledgementPasses (v.server.client i).response (strtoul v.server.shortRequestMessage).1
        (strtoul v.server.shortRequestMessage).2 then
      ∃ w, serverReceiveDataGuppy i realloc v = .ok () w ∧
        ChunkMarked i ((strtoul v.server.shortRequestMessage).1
          - (v.server.client i).response.firstChunk) v.server w.server
    else ∃ e w, serverReceiveDataGuppy i realloc v = .error e w := by
  have hnot : ¬ (v.server.shortRequestMessageSize ≥ guppyScheme.length ∧
      v.server.shortRequestMessage.take guppyScheme.length = guppyScheme) := by
    rw [Server.messageIsRequest] at hrequest
    simpa using hrequest
  unfold serverReceiveDataGuppy
  rw [if_neg (not_not.mpr howner)]
  dsimp only
  rw [if_neg hnot]
  by_cases hpasses : acknowledgementPasses (v.server.client i).response
      (strtoul v.server.shortRequestMessage).1 (strtoul v.server.shortRequestMessage).2 = true
  · rw [if_pos hpasses, if_pos hpasses]
    obtain ⟨-, hfirst, hlast⟩ := (acknowledgementPasses_iff _ _ h.window).mp hpasses
    obtain ⟨queue, hchunk, -, hcontent⟩ := acknowledgeChunk_spec h hfirst hlast
    rw [Server.onClient, hchunk]
    exact ⟨_, rfl, ⟨queue, Server.client_setClient hi _, hcontent⟩, rfl⟩
  · rw [if_neg hpasses, if_neg hpasses]
    exact ⟨_, _, rfl⟩

/-- For every client of Guppy with a pending response and every datagram that is no request, exactly the
acknowledgements of its chunks are accepted exactly when they are read rightly. -/
theorem serverReceiveDataGuppy_acknowledgesRightly_iff (hi : i < v.server.clients.elements.length)
    (howner : v.server.shortRequestMessageOwner = some (v.server.pointer i))
    (hrequest : v.server.messageIsRequest = false) (h : PendingChunks v.server i) :
    AcknowledgesRightly i realloc v ↔ ReadRightly i v.server := by
  have hwindow := h.window
  have hpasses := acknowledgementPasses_iff (strtoul v.server.shortRequestMessage).1
    (strtoul v.server.shortRequestMessage).2 hwindow
  have hcode := serverReceiveDataGuppy_acknowledges realloc hi howner hrequest h
  -- what the code accepts it marks, and what it does not accept it rejects
  have haccepted : acknowledgementPasses (v.server.client i).response
      (strtoul v.server.shortRequestMessage).1 (strtoul v.server.shortRequestMessage).2 = true →
      ∃ w, serverReceiveDataGuppy i realloc v = .ok () w ∧
        ChunkMarked i ((strtoul v.server.shortRequestMessage).1
          - (v.server.client i).response.firstChunk) v.server w.server := fun haccepts => by
    rwa [if_pos haccepts] at hcode
  have hrejected : ¬ acknowledgementPasses (v.server.client i).response
      (strtoul v.server.shortRequestMessage).1 (strtoul v.server.shortRequestMessage).2 = true →
      ∃ e w, serverReceiveDataGuppy i realloc v = .error e w := fun hrejects => by
    rwa [if_neg hrejects] at hcode
  constructor
  · rintro ⟨hmarks, hrejects⟩ hfirst hlast
    constructor
    · intro hacknowledgement hnull
      obtain ⟨k, hk⟩ := Nat.exists_eq_add_of_le hfirst
      rw [hk] at hacknowledgement
      obtain ⟨w, hw, -⟩ := hmarks k (by omega) hacknowledgement
      obtain ⟨e, u, hu⟩ := hrejected fun haccepts => (hpasses.mp haccepts).1 hnull
      rw [hw] at hu
      cases hu
    · intro hnull
      obtain ⟨w, hw, -⟩ := haccepted (hpasses.mpr ⟨hnull, hfirst, hlast⟩)
      by_contra hnone
      obtain ⟨e, u, hu⟩ := hrejects fun k hk hacknowledgement => by
        have hnumber := hacknowledgement.strtoul_eq (by omega)
        rw [← hnumber] at hacknowledgement
        exact hnone hacknowledgement
      rw [hw] at hu
      cases hu
  · intro hread
    refine ⟨fun k hk hacknowledgement => ?_, fun hnone => hrejected fun haccepts => ?_⟩
    · have hnumber := hacknowledgement.strtoul_eq (by omega)
      have hnull := (hread (by rw [hnumber]; omega) (by rw [hnumber]; omega)).mp
        (by rw [hnumber]; exact hacknowledgement)
      obtain ⟨w, hw, hmarked⟩ := haccepted (hpasses.mpr ⟨hnull, by rw [hnumber]; omega,
        by rw [hnumber]; omega⟩)
      rw [hnumber, Nat.add_sub_cancel_left] at hmarked
      exact ⟨w, hw, hmarked⟩
    · obtain ⟨hnull, hfirst, hlast⟩ := hpasses.mp haccepts
      obtain ⟨k, hk⟩ := Nat.exists_eq_add_of_le hfirst
      have hacknowledgement := (hread hfirst hlast).mpr hnull
      rw [hk] at hacknowledgement
      exact hnone k (by omega) hacknowledgement

/-- The client of a message in two chunks, the first of which has the number six, with a datagram in the
buffer behind which something is left. -/
def datagramVisit (datagram left : List UInt8) : Visit :=
  ⟨{ messageServer with
      shortRequestMessage := datagram ++ left
      shortRequestMessageOwner := some ⟨1, 0⟩
      shortRequestMessageSize := datagram.length }, .no, true, false⟩

theorem datagramVisit_pending (datagram left : List UInt8) :
    PendingChunks (datagramVisit datagram left).server 0 :=
  ⟨⟨⟨List.length_replicate, show 90 ≤ 128 by decide, Nat.zero_le _⟩, .inr ⟨7, by decide, rfl⟩⟩,
    show sizeofResponse + 0 + 2 ≤ 90 by decide, show 6 + 2 < 2 ^ 64 by decide⟩

/-- The second chunk is acknowledged where an earlier datagram was longer. -/
theorem serverReceiveDataGuppy_acknowledgesRightly_seven :
    AcknowledgesRightly 0 grantAll (datagramVisit (ascii "7\r\n") (ascii "lo")) := by
  have hread : ReadRightly 0 (datagramVisit (ascii "7\r\n") (ascii "lo")).server := by
    have hstrtoul : strtoul (ascii "7\r\n" ++ ascii "lo") = (7, ascii "\r\nlo") := by decide +kernel
    intro _ _
    show IsAcknowledgement _ (strtoul (ascii "7\r\n" ++ ascii "lo")).1 ↔
      ¬ EndsInNull (strtoul (ascii "7\r\n" ++ ascii "lo")).2
    rw [hstrtoul]
    exact iff_of_true ⟨ascii "7", by decide, by decide, by decide, by decide⟩ (by decide)
  exact (serverReceiveDataGuppy_acknowledgesRightly_iff (by decide) rfl (by decide)
    (datagramVisit_pending _ _)).mpr hread

/-- A number that no end of line follows is accepted, and one that an end of line and a null byte follow
is rejected. -/
theorem serverReceiveDataGuppy_acknowledgesWrongly :
    ¬ AcknowledgesRightly 0 grantAll (datagramVisit (ascii "7xyz") []) ∧
      ¬ AcknowledgesRightly 0 grantAll (datagramVisit (ascii "7\r\n") [0]) := by
  constructor
  · intro h
    have hnone : ∀ number, ¬ IsAcknowledgement (ascii "7xyz") number := by
      rintro number ⟨digits, -, -, heq, -⟩
      have hlast : (ascii "7xyz").getLast? = some 10 := by
        rw [heq, List.getLast?_append]
        rfl
      exact absurd hlast (by decide)
    obtain ⟨e, w, hw⟩ := h.rejects fun k _ => hnone _
    have hreturns : (serverReceiveDataGuppy 0 grantAll (datagramVisit (ascii "7xyz") [])).returnsIn
        (fun _ => true) = true := by decide +kernel
    rw [hw] at hreturns
    cases hreturns
  · intro h
    obtain ⟨w, hw, -⟩ := h.marks 1 (by decide) ⟨ascii "7", by decide, by decide, by decide, by decide⟩
    have hfails : (serverReceiveDataGuppy 0 grantAll (datagramVisit (ascii "7\r\n") [0])).failsIn
        (fun _ _ => true) = true := by decide +kernel
    rw [hw] at hfails
    cases hfails

end Twinkleshine
