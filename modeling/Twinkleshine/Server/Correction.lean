import Twinkleshine.Server.Cryptography

/-!
# The corrected size of an encrypted response

A response is entered into the queue before it is encrypted, and only encryption tells how many bytes
it takes. `cryptography_encrypt` goes back to the entry and overwrites its size, at an offset it counts
from the end of the ring. Reference: `cryptography_encrypt` in `source/cryptography.c`.
-/

namespace Twinkleshine

open Library

/-! ## Reading a queue -/

/-- The entry these bytes begin with and the bytes behind it, as `server_pop_response` finds them. -/
def readEntry (bytes : List UInt8) : Option (ResponseEntry × List UInt8) :=
  let response := Response.decode bytes
  let words := bytes.drop sizeofResponse
  let word (location : ValueLocation) : List UInt8 := segment words location false
  if sizeofResponse ≤ bytes.length ∧ response.size ≤ words.length then
    some (⟨response, word response.method, word response.resource, word response.protocol,
      word response.chunks⟩, words.drop response.size)
  else none

/-- The entries of a queue that counts so many of them. -/
def readEntries : ℕ → List UInt8 → Option (List ResponseEntry)
  | 0, bytes => if bytes = [] then some [] else none
  | count + 1, bytes =>
    (readEntry bytes).bind fun read => (readEntries count read.2).map (read.1 :: ·)

/-- An entry is read back, whatever follows it. -/
theorem ResponseEntry.WellFormed.readEntry_eq {entry : ResponseEntry} (h : entry.WellFormed)
    (rest : List UInt8) : readEntry (entry.bytes ++ rest) = some (entry, rest) := by
  have hdrop : (entry.bytes ++ rest).drop sizeofResponse = entry.words ++ rest := by
    rw [ResponseEntry.bytes, List.append_assoc, List.drop_left' (Response.length_encode _)]
  have hfits : sizeofResponse ≤ (entry.bytes ++ rest).length ∧
      entry.response.size ≤ (entry.words ++ rest).length := by
    rw [List.length_append, List.length_append, entry.length_bytes, h.size]
    omega
  have hword : ∀ before word after : List UInt8,
      segment (before ++ (word ++ after)) ⟨before.length, word.length⟩ false = word := by
    intro before word after
    rw [segment, ValueLocation.start, if_neg Bool.false_ne_true, List.drop_left, List.take_left]
  have hmethod : segment (entry.words ++ rest) entry.response.method false = entry.method := by
    rw [h.method]
    simpa [ResponseEntry.words] using
      hword [] entry.method (entry.resource ++ entry.protocol ++ entry.chunks ++ rest)
  have hresource : segment (entry.words ++ rest) entry.response.resource false = entry.resource := by
    rw [h.resource]
    simpa [ResponseEntry.words] using
      hword entry.method entry.resource (entry.protocol ++ entry.chunks ++ rest)
  have hprotocol : segment (entry.words ++ rest) entry.response.protocol false = entry.protocol := by
    rw [h.protocol]
    simpa [ResponseEntry.words] using
      hword (entry.method ++ entry.resource) entry.protocol (entry.chunks ++ rest)
  have hchunks : segment (entry.words ++ rest) entry.response.chunks false = entry.chunks := by
    rw [h.chunks]
    simpa [ResponseEntry.words, Nat.add_assoc] using
      hword (entry.method ++ entry.resource ++ entry.protocol) entry.chunks rest
  simp only [readEntry, h.decode, hdrop]
  rw [if_pos hfits, hmethod, hresource, hprotocol, hchunks, h.size, List.drop_left]

/-- A queue of well-formed entries is read back. -/
theorem readEntries_flatMap {entries : List ResponseEntry}
    (h : ∀ entry ∈ entries, entry.WellFormed) :
    readEntries entries.length (entries.flatMap ResponseEntry.bytes) = some entries := by
  induction entries with
  | nil => rfl
  | cons entry entries ih =>
    have hhead := h entry List.mem_cons_self
    have htail := ih fun other hother => h other (List.mem_cons_of_mem _ hother)
    rw [List.flatMap_cons, List.length_cons, readEntries, hhead.readEntry_eq, Option.bind_some,
      htail, Option.map_some]

/-! ## Correcting -/

/-- The entry with another size of its response. -/
def ResponseEntry.withStreamSize (entry : ResponseEntry) (streamSize : ℕ) : ResponseEntry :=
  { entry with response.streamSize := streamSize }

/-- The size is the first field of an entry. -/
theorem ResponseEntry.bytes_withStreamSize (entry : ResponseEntry) (streamSize : ℕ) :
    (entry.withStreamSize streamSize).bytes = overwrite entry.bytes 0 (littleEndian 8 streamSize) := by
  simp only [withStreamSize, ResponseEntry.bytes, ResponseEntry.words, Response.encode, overwrite,
    List.take_zero, List.nil_append, List.append_assoc, length_littleEndian, Nat.zero_add]
  rw [List.drop_left' (length_littleEndian _ _)]
  rfl

theorem ResponseEntry.WellFormed.withStreamSize {entry : ResponseEntry} (h : entry.WellFormed)
    {streamSize : ℕ} (hsize : streamSize < 2 ^ 64) :
    (entry.withStreamSize streamSize).WellFormed :=
  ⟨{ h.small with streamSize := hsize }, h.method, h.resource, h.protocol, h.chunks, h.size⟩

/-- The correction overwrites the size of the last entry, and no other byte of the queue. -/
theorem correctStreamSize_ok {queue : Ring} (h : queue.Valid) {before : List UInt8}
    {entry : ResponseEntry} (hentry : entry.WellFormed)
    (hqueue : ringContent queue = before ++ entry.bytes) (streamSize : ℕ) :
    ∃ corrected, correctStreamSize entry.response streamSize queue = .ok () corrected ∧
      corrected.Valid ∧ corrected = { queue with p := corrected.p } ∧
      ringContent corrected
        = overwrite (ringContent queue) before.length (littleEndian 8 streamSize) ∧
      ringContent corrected = before ++ (entry.withStreamSize streamSize).bytes := by
  have hsizeof : sizeofResponse = 88 := rfl
  have hlength := h.length_content
  rw [hqueue, List.length_append, entry.length_bytes, ← hentry.size] at hlength
  have hbytes : (littleEndian 8 streamSize).length = 8 := length_littleEndian _ _
  obtain ⟨value, hget, hview⟩ := ringGet_spec h.toSound h.size_lt
    (show (⟨entry.response.size + (sizeofResponse - 0 - 8), 8⟩ : ValueLocation).limit
      ≤ queue.size by simp only [ValueLocation.limit]; omega) true
  have hstart : (⟨entry.response.size + (sizeofResponse - 0 - 8), 8⟩ : ValueLocation).start true
      queue.size = before.length := by
    simp only [ValueLocation.start, if_true]
    omega
  have hcontent := hview.content_write (littleEndian 8 streamSize) hbytes
  rw [hstart] at hcontent
  refine ⟨queue.write value (littleEndian 8 streamSize), by rw [correctStreamSize, hget], ?_, rfl,
    hcontent, ?_⟩
  · exact ⟨⟨(hview.length_write _ hbytes).trans h.length_p, h.size_le, h.begin_le⟩, h.capacity_pow⟩
  · rw [hcontent, hqueue, entry.bytes_withStreamSize, overwrite, overwrite, List.take_left,
      List.drop_append, List.drop_eq_nil_of_le (by omega), List.nil_append, List.take_zero,
      List.nil_append, List.append_assoc, Nat.add_sub_cancel_left, Nat.zero_add]

/-- Encryption corrects the entry to the bytes it appends to the response stream. -/
theorem cryptographyEncrypt_corrects {answers : EncryptAnswers} {response : Response}
    {client d : Client} (h : cryptographyEncrypt answers response client = .ok () d) :
    correctStreamSize response (d.responseStream.size - client.responseStream.size)
      client.responseQueue = .ok () d.responseQueue := by
  unfold cryptographyEncrypt at h
  rcases hrefused : answers.refused with _ | e
  · rw [hrefused] at h
    obtain ⟨size, pumped, hpump, h⟩ := Outcome.andThen_eq_ok.mp h
    obtain ⟨w, filled, hfilled, hpumped⟩ := Outcome.andThen_eq_ok.mp hpump
    obtain ⟨stream, -, rfl⟩ := Outcome.mapState_eq_ok.mp hfilled
    cases hpumped
    obtain ⟨u, corrected, hcorrected, h⟩ := Outcome.andThen_eq_ok.mp h
    obtain ⟨queue, hqueue, rfl⟩ := Outcome.mapState_eq_ok.mp hcorrected
    cases h
    dsimp only
    split_ifs <;> exact Outcome.mapError_eq_ok.mp hqueue
  · simp [hrefused] at h

/-- The step of `cryptography_encrypt` that corrects the size of a response changes the size of the
last entry of the queue, the one `processor_construct_response` pushed for that response, and nothing
else: wherever the queue wraps, it holds the same entries in the same places with the new size in the
last of them. -/
theorem correctStreamSize_entries {earlier pushed queue : Ring} {realloc : Realloc}
    {streamSize firstChunk chunkNumber newSize : ℕ} {keepAlive : Bool}
    {method resource protocol : ConstantValue} {response : Response} {entries : List ResponseEntry}
    {added : List UInt8} (hearlier : earlier.Valid) (hstream : streamSize < 2 ^ 64)
    (hfirst : firstChunk < 2 ^ 32)
    (hpush : processorConstructResponse earlier realloc streamSize keepAlive firstChunk chunkNumber
      method resource protocol = .ok response pushed)
    (hadded : ringContent pushed = ringContent earlier ++ added) (hqueue : queue.Valid)
    (hentries : ∀ entry ∈ entries, entry.WellFormed)
    (hcontent : ringContent queue = entries.flatMap ResponseEntry.bytes ++ added)
    (hnew : newSize < 2 ^ 64) :
    ∃ last corrected, last.response = response ∧
      readEntries (entries.length + 1) (ringContent queue) = some (entries ++ [last]) ∧
      correctStreamSize response newSize queue = .ok () corrected ∧ corrected.Valid ∧
      corrected = { queue with p := corrected.p } ∧
      readEntries (entries.length + 1) (ringContent corrected)
        = some (entries ++ [last.withStreamSize newSize]) ∧
      ringContent corrected = overwrite (ringContent queue)
        (entries.flatMap ResponseEntry.bytes).length (littleEndian 8 newSize) := by
  obtain ⟨-, hresponse, hpushed, hsize⟩ := (processorConstructResponse_spec hearlier realloc
    streamSize keepAlive firstChunk chunkNumber method resource protocol).of_eq_ok hpush
  have hlast : (constructedEntry streamSize keepAlive firstChunk chunkNumber method resource
      protocol).WellFormed := constructedEntry_wellFormed hstream hfirst (by omega)
  generalize hentry : constructedEntry streamSize keepAlive firstChunk chunkNumber method resource
    protocol = last at *
  obtain rfl : added = last.bytes := List.append_cancel_left (hadded.symm.trans hpushed)
  obtain ⟨corrected, hcorrected, hvalid, hsame, hoverwrite, hbytes⟩ :=
    correctStreamSize_ok hqueue hlast hcontent newSize
  have hread : ∀ entry : ResponseEntry, entry.WellFormed →
      readEntries (entries.length + 1) (entries.flatMap ResponseEntry.bytes ++ entry.bytes)
        = some (entries ++ [entry]) := by
    intro entry hentry
    have hall : ∀ other ∈ entries ++ [entry], other.WellFormed := by
      intro other hother
      rcases List.mem_append.mp hother with h | h
      · exact hentries other h
      · exact List.mem_singleton.mp h ▸ hentry
    simpa using readEntries_flatMap hall
  refine ⟨last, corrected, hresponse.symm, ?_, ?_, hvalid, hsame, ?_, hoverwrite⟩
  · rw [hcontent, hread last hlast]
  · rw [hresponse, hcorrected]
  · rw [hbytes, hread _ (hlast.withStreamSize hnew)]

/-- The metadata of a silent response describes it. -/
theorem silentEntry_wellFormed {silentSize : ℕ} (h : silentSize < 2 ^ 64) :
    (⟨silentResponse silentSize, [], [], [], []⟩ : ResponseEntry).WellFormed := by
  have hzero : 0 < 2 ^ 64 := Nat.two_pow_pos 64
  have hlocation : 0 < 2 ^ 64 ∧ 0 < 2 ^ 64 := ⟨hzero, hzero⟩
  exact ⟨⟨h, hzero, hlocation, hlocation, hlocation, hlocation, Nat.two_pow_pos 32⟩, rfl, rfl, rfl,
    rfl, rfl⟩

/-- A queue with a silent response near the end of its block. -/
def silentQueue : Ring :=
  ⟨List.replicate 164 0 ++ (silentResponse 5).encode ++ List.replicate 4 0, 88, 256, 164⟩

/-- The entry behind it begins four bytes before the end of the block, within the size. -/
theorem correctStreamSize_entries_wrapped :
    ∃ response pushed, ∃ last : ResponseEntry, ∃ corrected,
      processorConstructResponse silentQueue none 10 true 0 0 ⟨[], []⟩ ⟨ascii "/", []⟩ ⟨[], []⟩
        = .ok response pushed ∧ pushed.begin + 88 + 4 = pushed.capacity ∧
      correctStreamSize response 300 pushed = .ok () corrected ∧
      readEntries 2 (ringContent corrected)
        = some [⟨silentResponse 5, [], [], [], []⟩, last.withStreamSize 300] := by
  have hvalid : silentQueue.Valid :=
    ⟨⟨by decide +kernel, by decide, by decide⟩, .inr ⟨8, by decide, rfl⟩⟩
  have hcontent : ringContent silentQueue
      = [(⟨silentResponse 5, [], [], [], []⟩ : ResponseEntry)].flatMap ResponseEntry.bytes := by
    decide +kernel
  obtain ⟨response, pushed, hpush, hplace⟩ := Outcome.exists_of_returnsIn
    (show (processorConstructResponse silentQueue none 10 true 0 0 ⟨[], []⟩ ⟨ascii "/", []⟩
      ⟨[], []⟩).returnsIn (fun q => decide (q.begin + 88 + 4 = q.capacity)) = true by decide +kernel)
  obtain ⟨hpushed, -, hadded, -⟩ :=
    (processorConstructResponse_spec hvalid none 10 true 0 0 ⟨[], []⟩ ⟨ascii "/", []⟩
      ⟨[], []⟩).of_eq_ok hpush
  obtain ⟨last, corrected, -, -, hcorrected, -, -, hread, -⟩ :=
    correctStreamSize_entries hvalid (by decide) (by decide) hpush hadded hpushed
      (fun entry hentry => List.mem_singleton.mp hentry ▸ silentEntry_wellFormed (by decide))
      (hcontent ▸ hadded) (show 300 < 2 ^ 64 by decide)
  exact ⟨response, pushed, last, corrected, hpush, of_decide_eq_true hplace, hcorrected, hread⟩

end Twinkleshine
