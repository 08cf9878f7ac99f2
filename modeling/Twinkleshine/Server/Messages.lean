import Twinkleshine.Processor.Guppy
import Twinkleshine.Server.Send
import Twinkleshine.ValueTheorems

/-!
# Messages are sent in whole chunks

The sender of a Guppy response does not know where its chunks begin. It computes their sizes again from
the size of the message, the number of chunks and the length of the last number, and cuts the value it
is given, which may be in two parts, as it goes along the counters. `ChunkSizes.size_eq` says that the
sizes are those the message was built with; `sendChunks_spec` follows the loop along the chunks.
-/

namespace Twinkleshine

open Library

/-! ## Sizes of the chunks -/

/-- All chunks but the last two are full, so the message is as long as this. -/
theorem IsMessage.length_message {firstChunk : ℕ} {payload : List UInt8}
    {pieces : List (List UInt8)} (h : IsMessage firstChunk payload pieces) :
    (message firstChunk pieces).length = chunkSize * (pieces.length - 2)
      + (chunkAt firstChunk pieces (pieces.length - 2)).length
      + (chunkAt firstChunk pieces (pieces.length - 1)).length := by
  obtain ⟨n, hn⟩ : ∃ n, pieces.length = n + 2 := ⟨pieces.length - 2, by have := h.two_le; omega⟩
  have hfull : ∀ m ≤ n, ((List.range m).flatMap (chunkAt firstChunk pieces)).length
      = chunkSize * m := by
    intro m hm
    induction m with
    | zero => rfl
    | succ m ih =>
      rw [List.range_succ, List.flatMap_append, List.length_append, List.flatMap_singleton,
        ih (by omega), h.length_eq m (by omega)]
      rfl
  rw [message, hn, List.range_succ, List.range_succ, List.flatMap_append, List.flatMap_append]
  simp only [List.flatMap_singleton, List.length_append, hfull n (Nat.le_refl n)]
  rfl

/-- There are not many more chunks than the payload needs. -/
theorem IsMessage.length_pieces_le {firstChunk : ℕ} {payload : List UInt8}
    {pieces : List (List UInt8)} (h : IsMessage firstChunk payload pieces) :
    500 * (pieces.length - 2) ≤ payload.length + 24 := by
  have hlong := h.length_message
  have hshort := length_message_le firstChunk pieces
  rw [h.flatten_eq] at hshort
  simp only [chunkSize] at hlong
  omega

/-- The chunk that ends the message is its number and an end of line. -/
theorem IsMessage.length_last {firstChunk : ℕ} {payload : List UInt8} {pieces : List (List UInt8)}
    (h : IsMessage firstChunk payload pieces) :
    (chunkAt firstChunk pieces (pieces.length - 1)).length
      = (decimal (firstChunk + (pieces.length - 1))).length + 2 := by
  have htwo := h.two_le
  have hempty := (h.piece_eq_nil_iff (pieces.length - 1) (by omega)).mpr (by omega)
  rw [chunkAt, hempty, List.append_nil, length_chunkHeader, if_neg (by omega)]

/-- The sizes the sender computes are those of the chunks. -/
theorem ChunkSizes.size_eq {firstChunk : ℕ} {payload : List UInt8} {pieces : List (List UInt8)}
    (h : IsMessage firstChunk payload pieces) (hpayload : payload.length < 2 ^ 30)
    (hfirst : firstChunk ≤ 2 ^ 31) {k : ℕ} (hk : k < pieces.length) :
    (ChunkSizes.of (message firstChunk pieces).length firstChunk (pieces.length % uintModulus)
        ((decimal (firstChunk + (pieces.length - 1))).length + 2)).size (firstChunk + k)
      = (chunkAt firstChunk pieces k).length := by
  have htwo := h.two_le
  have hpieces := h.length_pieces_le
  have htotal := h.length_message
  have hlast := h.length_last
  have hlastLe := h.length_le (pieces.length - 1)
  have hsecondLe := h.length_le (pieces.length - 2)
  simp only [chunkSize] at htotal hlastLe hsecondLe
  have hnumber : pieces.length % uintModulus = pieces.length :=
    Nat.mod_eq_of_lt (by simp only [uintModulus]; omega)
  -- the numbers of the last two chunks do not wrap
  have hlastChunk : (firstChunk + pieces.length + (uintModulus - 1)) % uintModulus
      = firstChunk + (pieces.length - 1) := by
    simp only [uintModulus]
    omega
  have hsecondChunk : (firstChunk + pieces.length + (uintModulus - 2)) % uintModulus
      = firstChunk + (pieces.length - 2) := by
    simp only [uintModulus]
    omega
  -- the chunk before the last one gets what the full ones leave
  have hsecondSize : sizeSub (sizeSub (message firstChunk pieces).length
        ((decimal (firstChunk + (pieces.length - 1))).length + 2))
      (chunkSize * ((pieces.length + (uintModulus - 2)) % uintModulus) % uintModulus)
      = (chunkAt firstChunk pieces (pieces.length - 2)).length := by
    have hfull : chunkSize * ((pieces.length + (uintModulus - 2)) % uintModulus) % uintModulus
        = 512 * (pieces.length - 2) := by
      simp only [chunkSize, uintModulus]
      omega
    rw [hfull, sizeSub_eq (a := (message firstChunk pieces).length) (by omega) (by omega),
      sizeSub_eq (by omega) (by omega)]
    omega
  simp only [ChunkSizes.of, ChunkSizes.size, hnumber, hlastChunk, hsecondChunk, hsecondSize]
  split_ifs with hsecond hlastOne
  · rw [show k = pieces.length - 2 by omega]
  · rw [show k = pieces.length - 1 by omega, hlast]
  · exact (h.length_eq k (by omega)).symm

/-! ## The loop -/

/-- The chunks that were sent: their counters were consulted and incremented, no other counter was. -/
structure SentChunks (firstChunk : ℕ) (pieces : List (List UInt8)) (k : ℕ) (counters : List UInt8)
    (ks : List ℕ) (datagrams : List (List UInt8)) (newCounters : List UInt8) : Prop where
  datagrams_eq : datagrams = ks.map (chunkAt firstChunk pieces)
  counters_eq : newCounters = counters.mapIdx fun j p => if k + j ∈ ks then p + 1 else p
  increasing : ks.Pairwise (· < ·)
  consulted : ∀ j ∈ ks, k ≤ j ∧ j < k + counters.length ∧
    0 ≤ (counters.getD (j - k) 0).toInt8.toInt ∧
    (counters.getD (j - k) 0).toInt8.toInt < chunkSendRepeats

variable {firstChunk k : ℕ} {pieces : List (List UInt8)} {ks : List ℕ}

namespace SentChunks

variable {counters newCounters : List UInt8} {datagrams : List (List UInt8)} {p : UInt8}

theorem nil (firstChunk : ℕ) (pieces : List (List UInt8)) (k : ℕ) (counters : List UInt8) :
    SentChunks firstChunk pieces k counters [] [] counters :=
  ⟨rfl, List.ext_getElem? fun j => by simp, .nil, by simp⟩

/-- A chunk that is not sent keeps its counter. -/
theorem skip (h : SentChunks firstChunk pieces (k + 1) counters ks datagrams newCounters)
    (p : UInt8) : SentChunks firstChunk pieces k (p :: counters) ks datagrams (p :: newCounters) := by
  have hnot : k ∉ ks := fun hmem => by have := (h.consulted k hmem).1; omega
  refine ⟨h.datagrams_eq, ?_, h.increasing, fun j hj => ?_⟩
  · rw [List.mapIdx_cons, h.counters_eq]
    simp only [Nat.add_zero, hnot, if_false, Nat.add_assoc, Nat.add_comm 1]
  · obtain ⟨hle, hlt, hpos, hrepeats⟩ := h.consulted j hj
    obtain ⟨i, rfl⟩ : ∃ i, j = k + (i + 1) := ⟨j - (k + 1), by omega⟩
    rw [List.length_cons, show k + (i + 1) - k = i + 1 by omega, List.getD_cons_succ]
    rw [show k + (i + 1) - (k + 1) = i by omega] at hpos hrepeats
    exact ⟨by omega, by omega, hpos, hrepeats⟩

/-- A chunk that is sent has its counter incremented. -/
theorem send (h : SentChunks firstChunk pieces (k + 1) counters ks datagrams newCounters)
    (hpos : 0 ≤ p.toInt8.toInt) (hrepeats : p.toInt8.toInt < chunkSendRepeats) :
    SentChunks firstChunk pieces k (p :: counters) (k :: ks)
      (chunkAt firstChunk pieces k :: datagrams) ((p + 1) :: newCounters) := by
  have hbehind : ∀ j ∈ ks, k < j := fun j hj => (h.consulted j hj).1
  refine ⟨?_, ?_, List.pairwise_cons.mpr ⟨hbehind, h.increasing⟩, fun j hj => ?_⟩
  · rw [h.datagrams_eq, List.map_cons]
  · have hne : ∀ j, k + (j + 1) ≠ k := fun j => by omega
    rw [List.mapIdx_cons, h.counters_eq]
    simp only [List.mem_cons, Nat.add_zero, true_or, if_true, hne, false_or, Nat.add_assoc,
      Nat.add_comm 1]
  · rcases List.mem_cons.mp hj with rfl | hj
    · rw [Nat.sub_self, List.getD_cons_zero, List.length_cons]
      exact ⟨Nat.le_refl _, by omega, hpos, hrepeats⟩
    · exact ((h.skip p).consulted j hj)

end SentChunks

/-- The loop sends whole chunks, whatever the counters are and wherever the parts of the message are
divided. The induction is on the counters that are left; the message is what is left of it with
them. -/
theorem sendChunks_spec {sizes : ChunkSizes} (address : Option Address)
    (hsizes : ∀ k < pieces.length,
      sizes.size (firstChunk + k) = (chunkAt firstChunk pieces k).length)
    (hsmall : firstChunk + pieces.length < 2 ^ 32) (counters : List UInt8) (value : ConstantValue)
    (hcounters : k + counters.length = pieces.length)
    (hvalue : value.bytes
      = (List.range' k counters.length).flatMap (chunkAt firstChunk pieces))
    (sent acknowledged : ℕ) (done : List UInt8) (datagrams : List (List UInt8)) :
    let messages (r : Messaging) : Prop :=
      ∃ ks sentDatagrams newCounters,
        SentChunks firstChunk pieces k counters ks sentDatagrams newCounters ∧
          r.datagrams = datagrams ++ sentDatagrams ∧ r.chunks = done ++ newCounters
    (sendChunks sizes address counters (firstChunk + k) value sent acknowledged done
      datagrams).Ensures (fun _ r => messages r) (fun _ r => messages r) := by
  intro messages
  -- by induction on the counters: each stands for the chunk that is cut off first
  induction counters generalizing k value sent acknowledged done datagrams with
  | nil =>
    exact ⟨[], [], [], .nil _ _ _ _, (List.append_nil _).symm, (List.append_nil _).symm⟩
  | cons p rest ih =>
    rw [List.length_cons] at hcounters hvalue
    have hsize := hsizes k (by omega)
    have hnext : (firstChunk + k + 1) % uintModulus = firstChunk + (k + 1) :=
      Nat.mod_eq_of_lt (by simp only [uintModulus]; omega)
    rw [List.range'_succ, List.flatMap_cons] at hvalue
    have hfirst : (valueFirstSecond value (chunkAt firstChunk pieces k).length).2.bytes
        = chunkAt firstChunk pieces k := by
      rw [valueFirstSecond_first, hvalue, List.take_left]
    have hrest := valueFirstSecond_rest value (chunkAt firstChunk pieces k).length
    rw [hvalue, List.drop_left] at hrest
    -- the chunks behind this one
    have htail := fun sent acknowledged done datagrams => ih (k := k + 1)
      (valueFirstSecond value (chunkAt firstChunk pieces k).length).1 (by omega) hrest sent
      acknowledged done datagrams
    have hskip : ∀ sent acknowledged,
        (sendChunks sizes address rest (firstChunk + (k + 1))
          (valueFirstSecond value (chunkAt firstChunk pieces k).length).1 sent acknowledged
          (done ++ [p]) datagrams).Ensures (fun _ r => messages r) (fun _ r => messages r) := by
      intro sent acknowledged
      have hmono : ∀ r : Messaging, (∃ ks sentDatagrams newCounters,
          SentChunks firstChunk pieces (k + 1) rest ks sentDatagrams newCounters ∧
            r.datagrams = datagrams ++ sentDatagrams ∧
              r.chunks = done ++ [p] ++ newCounters) → messages r := by
        rintro r ⟨ks, sentDatagrams, newCounters, hsent, hdatagrams, hchunks⟩
        refine ⟨ks, sentDatagrams, _, hsent.skip p, hdatagrams, ?_⟩
        rw [hchunks, List.append_assoc, List.singleton_append]
      exact (htail sent acknowledged (done ++ [p]) datagrams).mono (fun _ r => hmono r)
        fun _ r => hmono r
    simp only [sendChunks, hsize, hnext]
    -- a counter that is used up ends the loop, one that is acknowledged is passed over
    by_cases hrepeats : p.toInt8.toInt < chunkSendRepeats
    · rw [if_neg (not_not.mpr hrepeats)]
      by_cases hacknowledged : p.toInt8.toInt < 0
      · rw [if_pos hacknowledged]
        exact hskip _ _
      · rw [if_neg hacknowledged]
        rcases address with _ | address
        · exact hskip _ _
        · simp only [valueToContinuous_eq, hfirst]
          -- a round sends `CHUNK_SEND_SIMULTANEOUS` chunks at most
          split_ifs with hstop
          · refine ⟨_, _, _, (SentChunks.nil firstChunk pieces (k + 1) rest).send
              (by omega) hrepeats, rfl, ?_⟩
            rfl
          · have hmono : ∀ r : Messaging, (∃ ks sentDatagrams newCounters,
                SentChunks firstChunk pieces (k + 1) rest ks sentDatagrams newCounters ∧
                  r.datagrams = datagrams ++ [chunkAt firstChunk pieces k] ++ sentDatagrams ∧
                    r.chunks = done ++ [p + 1] ++ newCounters) → messages r := by
              rintro r ⟨ks, sentDatagrams, newCounters, hsent, hdatagrams, hchunks⟩
              refine ⟨_, _, _, hsent.send (by omega) hrepeats, ?_, ?_⟩
              · rw [hdatagrams, List.append_assoc, List.singleton_append]
              · rw [hchunks, List.append_assoc, List.singleton_append]
            exact (htail _ _ _ _).mono (fun _ r => hmono r) fun _ r => hmono r
    · rw [if_pos hrepeats]
      exact ⟨[], [], p :: rest, .nil _ _ _ _, (List.append_nil _).symm, rfl⟩

/-! ## Messages of clients -/

/-- The value that holds a message of client `i`, in the short response stream or flushed into the
client's ring, and what is done to it when all of it is sent. -/
inductive HoldsMessage (s : Server) (i : ℕ) (bytes : List UInt8) :
    (ℕ → Server → Server) → ConstantValue → Prop
  | short (h : (s.shortResponseStream.read s.buffers).bytes = bytes) :
    HoldsMessage s i bytes advanceShort (s.shortResponseStream.read s.buffers)
  | flushed (hsound : (s.client i).responseStream.Sound)
    (h : ringContent (s.client i).responseStream = bytes) :
    HoldsMessage s i bytes (fun _ s => s)
      ((ringGetAll (s.client i).responseStream).read (s.client i).responseStream.p)

theorem HoldsMessage.bytes_eq {s : Server} {i : ℕ} {bytes : List UInt8}
    {advance : ℕ → Server → Server} {stream : ConstantValue}
    (h : HoldsMessage s i bytes advance stream) : stream.bytes = bytes := by
  rcases h with h | ⟨hsound, h⟩
  · exact h
  · rw [(ringGetAll_spec hsound).1, h]

/-- Advancing what was sent is no effect, and leaves the clients as they are. -/
theorem HoldsMessage.advance_eq {s : Server} {i : ℕ} {bytes : List UInt8}
    {advance : ℕ → Server → Server} {stream : ConstantValue}
    (h : HoldsMessage s i bytes advance stream) (n : ℕ) (t : Server) :
    (advance n t).effects = t.effects ∧ (advance n t).clients = t.clients := by
  cases h <;> exact ⟨rfl, rfl⟩

/-- The counters of the chunks of client `i`: a segment of its response queue. -/
def chunkCounters (s : Server) (i : ℕ) : ValueLocation :=
  ⟨sizeofResponse + (s.client i).response.chunks.offset, (s.client i).response.chunks.size⟩

/-- From `s` to `t`, client `i` was sent whole chunks of the message in these pieces: their counters
were consulted and incremented in its response queue. -/
def MessageSent (firstChunk : ℕ) (pieces : List (List UInt8)) (i : ℕ) (s t : Server) : Prop :=
  ∃ ks datagrams newCounters,
    SentChunks firstChunk pieces 0
      (segment (ringContent (s.client i).responseQueue) (chunkCounters s i) false) ks datagrams
      newCounters ∧
    t.effects = s.effects ++ datagrams.map (.sentTo (s.client i).birth) ∧
    ringContent (t.client i).responseQueue
      = overwrite (ringContent (s.client i).responseQueue) (chunkCounters s i).offset newCounters

/-- `server_send_message` on a message, with the counters that belong to it. -/
theorem serverSendMessage_spec {firstChunk : ℕ} {payload : List UInt8} {pieces : List (List UInt8)}
    (h : IsMessage firstChunk payload pieces) (hpayload : payload.length < 2 ^ 30)
    (hfirst : firstChunk ≤ 2 ^ 31) {value : ConstantValue}
    (hvalue : value.bytes = message firstChunk pieces) (address : Option Address)
    {counters : List UInt8} (hcounters : counters.length = pieces.length) :
    let messages (r : Messaging) : Prop :=
      ∃ ks, SentChunks firstChunk pieces 0 counters ks r.datagrams r.chunks
    (serverSendMessage value address firstChunk counters
      ((decimal (firstChunk + (pieces.length - 1))).length + 2)).Ensures
      (fun _ r => messages r) (fun _ r => messages r) := by
  intro messages
  have hpieces := h.length_pieces_le
  have htwo := h.two_le
  have hall : value.bytes
      = (List.range' 0 counters.length).flatMap (chunkAt firstChunk pieces) := by
    rw [hvalue, hcounters, message, List.range_eq_range']
  have hspec := sendChunks_spec (k := 0) address
    (fun k hk => ChunkSizes.size_eq h hpayload hfirst hk) (by omega) counters value (by omega) hall
    0 0 [] []
  have hmono : ∀ r : Messaging, (∃ ks sentDatagrams newCounters,
      SentChunks firstChunk pieces 0 counters ks sentDatagrams newCounters ∧
        r.datagrams = [] ++ sentDatagrams ∧ r.chunks = [] ++ newCounters) → messages r := by
    rintro r ⟨ks, _, _, hsent, rfl, rfl⟩
    exact ⟨ks, hsent⟩
  rw [Nat.add_zero, ← hvalue, ← valueSize_eq, ← hcounters] at hspec
  rw [serverSendMessage, ← hcounters]
  exact hspec.andThen (fun _ r hr => hmono r hr) fun _ r hr => hmono r hr

/-- A value of a ring that is written keeps the ring valid. -/
theorem RingView.valid_write {ring : Ring} {location : ValueLocation} {latest : Bool}
    {value : MutableValue} (h : RingView ring location latest value) (hvalid : ring.Valid)
    {source : List UInt8} (hsource : source.length = location.size) :
    (ring.write value source).Valid := by
  obtain ⟨⟨hlength, hsize, hbegin⟩, hcapacity⟩ := hvalid
  exact ⟨⟨(h.length_write source hsource).trans hlength, hsize, hbegin⟩, hcapacity⟩

/-- Of a response whose counters are in the queue, `server_send_message` is given the counters, and the
length of the last number with an end of line. -/
theorem sendMessage_eq {v : Visit} {i firstChunk n : ℕ}
    (hqueue : (v.server.client i).responseQueue.Valid)
    (hcounters : (chunkCounters v.server i).limit ≤ (v.server.client i).responseQueue.size)
    (hfirst : (v.server.client i).response.firstChunk = firstChunk)
    (hnumber : (v.server.client i).response.chunks.size = n) (hpos : 1 ≤ n)
    (hlt : firstChunk + n < 2 ^ 32) (now : ℤ) (advance : ℕ → Server → Server)
    (stream : ConstantValue) :
    ∃ chunks address lastChunkSent,
      RingView (v.server.client i).responseQueue (chunkCounters v.server i) false chunks ∧
      sendMessage i now advance stream v
        = (serverSendMessage stream address firstChunk
            (segment (ringContent (v.server.client i).responseQueue) (chunkCounters v.server i) false)
            ((decimal (firstChunk + (n - 1))).length + 2)).handle
          (fun e r => .error e { v with
            server := v.server.afterMessage i chunks (v.server.client i).lastChunkSent r })
          fun _ r => .ok (if r.finished then valueSize stream else 0) { v with
            server := advance (if r.finished then valueSize stream else 0)
              (v.server.afterMessage i chunks lastChunkSent r)
            flags.saturated := true } := by
  have hlast : sizeSub (sizeAdd firstChunk n) 1 = firstChunk + (n - 1) := by
    rw [sizeAdd_eq (by omega), sizeSub_eq (by omega) (by omega)]
    omega
  have hlength : intLength (firstChunk + (n - 1)) = some (decimal (firstChunk + (n - 1))).length :=
    intLength_eq (by omega)
  obtain ⟨chunks, hget, hview⟩ := ringGet_spec hqueue.toSound hqueue.size_lt hcounters false
  have hlocation : (⟨sizeofResponse + (v.server.client i).response.chunks.offset, n⟩ :
      ValueLocation) = chunkCounters v.server i := by
    rw [chunkCounters, hnumber]
  let real : Bool := (v.server.client i).lastChunkSent = 0 ||
    now ≥ (v.server.client i).lastChunkSent + chunkSendRepeatTime
  refine ⟨chunks, if real then some (v.server.client i).address else none,
    if real then now else (v.server.client i).lastChunkSent, hview, ?_⟩
  rw [← hview.bytes]
  simp only [sendMessage, hfirst, hnumber, hlast, hlength, hlocation, hget, Except.mapError,
    Outcome.ofOption_some, Outcome.ofExcept_ok, Outcome.andThen_ok]
  rfl

/-- Whatever is sent to a client of a message-based protocol whose current response is a message of
`guppy_insert_markers` are whole chunks of the message, the chunks whose counters were consulted and
incremented. -/
theorem sendValue_wholeChunks {buffer b : CharBuffer} (hbuffer : buffer.Valid) {random : ℕ}
    (hrandom : 6 + random ≤ 2 ^ 31) (hpayload : 1 ≤ buffer.size) (hsmall : buffer.size < 2 ^ 30)
    {realloc : Realloc} {firstChunk chunkNumber : ℕ}
    (hbuilt : guppyInsertMarkers random realloc buffer = .ok (firstChunk, chunkNumber) b)
    {v : Visit} {i : ℕ} (hi : i < v.server.clients.elements.length)
    (hmessage : acceptingSocketIsConnection (v.server.client i).acceptingSocket = false)
    {advance : ℕ → Server → Server} {stream : ConstantValue}
    (hstream : HoldsMessage v.server i b.text advance stream)
    (hqueue : (v.server.client i).responseQueue.Valid)
    (hcounters : (chunkCounters v.server i).limit ≤ (v.server.client i).responseQueue.size)
    (hfirst : (v.server.client i).response.firstChunk = firstChunk)
    (hnumber : (v.server.client i).response.chunks.size = chunkNumber) (now : ℤ)
    (answers : SendAnswer × SendAnswer) :
    ∃ pieces, IsMessage firstChunk buffer.text pieces ∧ b.text = message firstChunk pieces ∧
      (sendValue i now answers advance stream v).Ensures
        (fun _ w => MessageSent firstChunk pieces i v.server w.server)
        (fun _ w => MessageSent firstChunk pieces i v.server w.server) := by
  obtain ⟨rfl, -, pieces, hpieces, htext, rfl⟩ :=
    (guppyInsertMarkers_spec hbuffer hrandom hpayload hsmall realloc).of_eq_ok hbuilt
  refine ⟨pieces, hpieces, htext, ?_⟩
  have hlt : buffer.text.length < 2 ^ 30 := by
    rw [CharBuffer.text, List.length_take]
    omega
  have hle := hpieces.length_pieces_le
  have htwo := hpieces.two_le
  have hlength : (segment (ringContent (v.server.client i).responseQueue)
      (chunkCounters v.server i) false).length = pieces.length := by
    rw [length_segment (by rw [hqueue.length_content]; exact hcounters)]
    exact hnumber
  -- the client is one of Guppy, so the message is sent in chunks
  have hstep : sendValue i now answers advance stream v = sendMessage i now advance stream v := by
    rw [sendValue, if_neg (by rw [hmessage]; exact Bool.false_ne_true)]
  obtain ⟨chunks, address, lastChunkSent, hview, heq⟩ := sendMessage_eq hqueue hcounters hfirst
    hnumber (by omega) (by omega) now advance stream
  rw [hstep, heq]
  -- what was sent, whether the call failed or not
  have hafter : ∀ (r : Messaging) (lastChunkSent : ℤ), (∃ ks, SentChunks (6 + random) pieces 0
      (segment (ringContent (v.server.client i).responseQueue) (chunkCounters v.server i) false) ks
        r.datagrams r.chunks) →
      MessageSent (6 + random) pieces i v.server
        (v.server.afterMessage i chunks lastChunkSent r) := by
    rintro r lastChunkSent ⟨ks, hsent⟩
    have hsame : r.chunks.length = (chunkCounters v.server i).size := by
      rw [hsent.counters_eq, List.length_mapIdx, hlength]
      exact hnumber.symm
    refine ⟨ks, r.datagrams, r.chunks, hsent, rfl, ?_⟩
    have hcontent := hview.content_write r.chunks hsame
    rw [ValueLocation.start, if_neg Bool.false_ne_true] at hcontent
    rw [← hcontent]
    exact congrArg (fun client : Client => ringContent client.responseQueue)
      (Server.client_setClient hi _)
  refine (serverSendMessage_spec hpieces hlt hrandom (hstream.bytes_eq.trans htext) _
    hlength).handle (fun _ r hr => ?_) fun _ r hr => hafter r _ hr
  obtain ⟨ks, datagrams, newCounters, hsent, heffects, hcontent⟩ := hafter r _ hr
  -- what is advanced afterwards is neither a datagram nor a counter
  obtain ⟨hsameEffects, hsameClients⟩ := hstream.advance_eq _ _
  refine ⟨ks, datagrams, newCounters, hsent, hsameEffects.trans heffects, ?_⟩
  rw [← hcontent, Server.client, Server.client]
  exact congrArg (fun clients => ringContent (clients.elements.getD i .zero).responseQueue)
    hsameClients

/-- A server whose short response stream is the message of a text of six bytes, for a client that no
chunk was sent to yet. -/
def messageServer : Server :=
  let buffers : InternalBuffers := ⟨ascii "6 => /a\n7\r\n", []⟩
  { Server.initial ⟨0, [], 0⟩ with
    clients := ⟨1, [{ Client.zero with
      acceptingSocket := 16
      responseStream := .zero
      responseQueue := ⟨List.replicate 128 0, 90, 128, 0⟩
      response := ⟨11, 2, .zero, .zero, .zero, ⟨0, 2⟩, false, false, 6⟩ }], 1⟩
    buffers := buffers
    shortResponseStream := .ofBuffers buffers
    shortResponseStreamOwner := some ⟨1, 0⟩ }

theorem sendValue_wholeChunks_short :
    let buffer : CharBuffer := ⟨ascii "=> /a\n" ++ [0, 0], 6, 8⟩
    let b : CharBuffer := ⟨ascii "6 => /a\n7\r\n" ++ [0, 0, 0, 0, 0], 11, 16⟩
    let v : Visit := ⟨messageServer, .no, true, false⟩
    ∃ pieces, IsMessage 6 buffer.text pieces ∧ b.text = message 6 pieces ∧
      (sendValue 0 100 (.wouldBlock, .wouldBlock) advanceShort
          (v.server.shortResponseStream.read v.server.buffers) v).Ensures
        (fun _ w => MessageSent 6 pieces 0 v.server w.server)
        (fun _ w => MessageSent 6 pieces 0 v.server w.server) := by
  intro buffer b v
  have hbuffer : buffer.Valid := ⟨rfl, .inl (by decide)⟩
  have hbuilt : guppyInsertMarkers 0 (some fun _ => 0) buffer = .ok (6, 2) b := by decide +kernel
  have hqueue : (v.server.client 0).responseQueue.Valid :=
    ⟨⟨List.length_replicate, by decide, by decide⟩, .inr ⟨7, by decide, rfl⟩⟩
  exact sendValue_wholeChunks hbuffer (by decide) (by decide) (by decide) hbuilt (by decide) rfl
    (.short rfl) hqueue (by decide) rfl rfl 100 (.wouldBlock, .wouldBlock)

end Twinkleshine
