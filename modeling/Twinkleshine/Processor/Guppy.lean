import Twinkleshine.Buffer
import Twinkleshine.Utility
import Twinkleshine.Processor.ProcessTheorems
import Mathlib.Data.List.GetD
import Mathlib.Data.List.Induction

/-!
# Messages of Guppy

Reference: `guppy_insert_markers` in `source/processor/guppy_processor.c`.

A Guppy response is sent in chunks of at most `CHUNK_SIZE` bytes, each of which starts with its
sequence number; a chunk that holds nothing else ends the message. `guppy_insert_markers` puts the
numbers into the finished text in place: one loop forwards finds the sizes of the chunks, and one loop
backwards moves every piece of the text to its place behind its header.

`Cut` is how the first loop cuts the text, as a relation on the text that is left. The forward loop is
followed by induction on it, and the backward loop by induction on the pieces from the last one on.
-/

namespace Twinkleshine

open Library

/-! ## The loops -/

/-- What the first loop of `guppy_insert_markers` changes. -/
structure MarkerSizes where
  /-- `chunk_total_sizes[0]`: the size of the chunk before the last -/
  totalSizes0 : ℕ
  /-- `chunk_total_sizes[1]`: the size of the last chunk -/
  totalSizes1 : ℕ
  seq : ℕ
  totalSize : ℕ
  payloadSize : ℕ
deriving DecidableEq, Repr

/-- The first loop of `guppy_insert_markers`. Every round but the last takes a byte of the payload, so
the size of the payload bounds the number of rounds. -/
def measureChunks (initialPayloadSize : ℕ) : ℕ → MarkerSizes → Option MarkerSizes
  | 0, _ => none
  | fuel + 1, s =>
    (intLength s.seq).bind fun length =>
    let chunkExtraSize := length + if s.totalSize = 0 then 1 else 2
    let maxChunkPayloadSize := chunkSize - chunkExtraSize
    let chunkPayloadSize :=
      if initialPayloadSize - s.payloadSize < maxChunkPayloadSize then
        initialPayloadSize - s.payloadSize
      else maxChunkPayloadSize
    let chunkTotalSize := chunkExtraSize + chunkPayloadSize
    let s := { s with
      totalSizes0 := s.totalSizes1
      totalSizes1 := chunkTotalSize
      payloadSize := s.payloadSize + chunkPayloadSize
      totalSize := s.totalSize + chunkTotalSize }
    if chunkPayloadSize = 0 then some s
    else measureChunks initialPayloadSize fuel { s with seq := (s.seq + 1) % uintModulus }

/-- The header of a chunk: `"%u "` for the first one, `"%u" CRLF` for the others. -/
def chunkHeader (firstChunk seq : ℕ) : List UInt8 :=
  decimal seq ++ if seq = firstChunk then ascii " " else crlf

/-- The second loop of `guppy_insert_markers`, on the block of the buffer. -/
def placeChunks (firstChunk : ℕ) : ℕ → MarkerSizes → List UInt8 → Option (List UInt8)
  | 0, _, _ => none
  | fuel + 1, s, p =>
    let extra := chunkHeader firstChunk s.seq
    let chunkTotalSize := s.totalSizes1
    let chunkPayloadSize := chunkTotalSize - extra.length
    let payloadSize := s.payloadSize - chunkPayloadSize
    let totalSize := s.totalSize - chunkTotalSize
    let p := memmove p (totalSize + extra.length) payloadSize chunkPayloadSize
    let p := memcpy p totalSize extra
    if s.seq = firstChunk then some p
    else
      placeChunks firstChunk fuel
        ⟨chunkSize, s.totalSizes0, (s.seq + (uintModulus - 1)) % uintModulus, totalSize, payloadSize⟩ p

/-- `guppy_insert_markers`: the number of the first chunk and the number of chunks. `random` is what
`random_rand(0x1000000)` returns. -/
def guppyInsertMarkers (random : ℕ) (realloc : Realloc) (buffer : CharBuffer) :
    Outcome Error CharBuffer (ℕ × ℕ) :=
  let firstChunk := (6 + random) % uintModulus
  match measureChunks buffer.size (buffer.size + 2) ⟨0, 0, firstChunk, 0, 0⟩ with
  | none => .hang
  | some s =>
    let chunkNumber := (s.seq + (uintModulus - firstChunk) + 1) % uintModulus
    (stringResize buffer s.totalSize realloc).andThen fun _ buffer =>
    match placeChunks firstChunk (buffer.size + 2) s buffer.p with
    | none => .hang
    | some p => .ok (firstChunk, chunkNumber) { buffer with p := p }

/-! ## Chunks and messages -/

/-- Chunk `k` of the message in these pieces. -/
def chunkAt (firstChunk : ℕ) (pieces : List (List UInt8)) (k : ℕ) : List UInt8 :=
  chunkHeader firstChunk (firstChunk + k) ++ pieces.getD k []

/-- The chunks of all pieces, one after the other. -/
def message (firstChunk : ℕ) (pieces : List (List UInt8)) : List UInt8 :=
  (List.range pieces.length).flatMap (chunkAt firstChunk pieces)

theorem length_chunkHeader_pos (firstChunk seq : ℕ) : 0 < (chunkHeader firstChunk seq).length := by
  simp only [chunkHeader, List.length_append, ascii, crlf]
  split_ifs <;> simp

theorem length_chunkHeader_le (firstChunk seq : ℕ) : (chunkHeader firstChunk seq).length ≤ 12 := by
  have hdecimal := length_decimal_le seq
  have hspace : (ascii " ").length = 1 := rfl
  simp only [chunkHeader, List.length_append]
  split_ifs
  · omega
  · simp only [crlf, List.length_cons, List.length_nil]
    omega

/-- A chunk does not depend on the pieces behind it. -/
theorem chunkAt_append {firstChunk k : ℕ} {pieces : List (List UInt8)} (h : k < pieces.length)
    (more : List (List UInt8)) :
    chunkAt firstChunk (pieces ++ more) k = chunkAt firstChunk pieces k := by
  rw [chunkAt, List.getD_append _ _ _ _ h, chunkAt]

/-- The chunk of the last piece. -/
theorem chunkAt_last (firstChunk : ℕ) (pieces : List (List UInt8)) (piece : List UInt8) :
    chunkAt firstChunk (pieces ++ [piece]) pieces.length
      = chunkHeader firstChunk (firstChunk + pieces.length) ++ piece := by
  rw [chunkAt, List.getD_append_right _ _ _ _ (Nat.le_refl _), Nat.sub_self, List.getD_cons_zero]

@[simp] theorem message_nil (firstChunk : ℕ) : message firstChunk [] = [] := rfl

/-- One more piece is one more chunk. -/
theorem message_append (firstChunk : ℕ) (pieces : List (List UInt8)) (piece : List UInt8) :
    message firstChunk (pieces ++ [piece]) = message firstChunk pieces
      ++ (chunkHeader firstChunk (firstChunk + pieces.length) ++ piece) := by
  have hfront : (List.range pieces.length).flatMap (chunkAt firstChunk (pieces ++ [piece]))
      = (List.range pieces.length).flatMap (chunkAt firstChunk pieces) := by
    refine List.flatMap_congr fun k hk => ?_
    exact chunkAt_append (List.mem_range.mp hk) _
  rw [message, List.length_append, List.length_singleton, List.range_succ, List.flatMap_append,
    hfront, List.flatMap_singleton, chunkAt_last, message]

/-- The payload is never longer than the message. -/
theorem length_flatten_le_message (firstChunk : ℕ) (pieces : List (List UInt8)) :
    pieces.flatten.length ≤ (message firstChunk pieces).length := by
  induction pieces using List.reverseRecOn with
  | nil => simp
  | append_singleton pieces piece ih =>
    rw [message_append]
    simp only [List.flatten_append, List.flatten_cons, List.flatten_nil, List.length_append,
      List.append_nil]
    omega

/-! ## How the text is cut -/

/-- How much payload chunk `k` has room for. -/
def chunkRoom (firstChunk k : ℕ) : ℕ :=
  chunkSize - (chunkHeader firstChunk (firstChunk + k)).length

theorem chunkRoom_add (firstChunk k : ℕ) :
    (chunkHeader firstChunk (firstChunk + k)).length + chunkRoom firstChunk k = chunkSize := by
  have hheader := length_chunkHeader_le firstChunk (firstChunk + k)
  simp only [chunkRoom, chunkSize]
  omega

theorem chunkRoom_pos (firstChunk k : ℕ) : 0 < chunkRoom firstChunk k := by
  have hheader := length_chunkHeader_le firstChunk (firstChunk + k)
  simp only [chunkRoom, chunkSize]
  omega

/-- From chunk `k` on, the text is cut into these pieces: each is as long as its chunk has room for,
and an empty one ends the message. -/
inductive Cut (firstChunk : ℕ) : ℕ → List UInt8 → List (List UInt8) → Prop
  | last (k : ℕ) : Cut firstChunk k [] [[]]
  | piece {k : ℕ} {text : List UInt8} {pieces : List (List UInt8)} (hne : text ≠ [])
      (h : Cut firstChunk (k + 1) (text.drop (chunkRoom firstChunk k)) pieces) :
      Cut firstChunk k text (text.take (chunkRoom firstChunk k) :: pieces)

/-- Every text is cut somehow. -/
theorem exists_cut (firstChunk k : ℕ) (text : List UInt8) :
    ∃ pieces, Cut firstChunk k text pieces := by
  induction hn : text.length using Nat.strong_induction_on generalizing k text with
  | _ n ih =>
    by_cases hnil : text = []
    · exact ⟨_, hnil ▸ Cut.last k⟩
    · have hlength : 0 < text.length := List.length_pos_iff.mpr hnil
      have hroom := chunkRoom_pos firstChunk k
      obtain ⟨pieces, hpieces⟩ :=
        ih _ (by rw [List.length_drop]; omega) (k + 1) (text.drop (chunkRoom firstChunk k)) rfl
      exact ⟨_, .piece hnil hpieces⟩

namespace Cut

variable {firstChunk k : ℕ} {text : List UInt8} {pieces : List (List UInt8)}

theorem flatten_eq (h : Cut firstChunk k text pieces) : pieces.flatten = text := by
  induction h with
  | last k => rfl
  | piece hne h ih => rw [List.flatten_cons, ih, List.take_append_drop]

theorem length_pos (h : Cut firstChunk k text pieces) : 0 < pieces.length := by
  cases h <;> simp

theorem length_le (h : Cut firstChunk k text pieces) : pieces.length ≤ text.length + 1 := by
  induction h with
  | last k => simp
  | @piece k text pieces hne h ih =>
    have hroom := chunkRoom_pos firstChunk k
    have hlength : 0 < text.length := List.length_pos_iff.mpr hne
    rw [List.length_drop] at ih
    rw [List.length_cons]
    omega

/-- Text that is left makes one more piece. -/
theorem one_lt_length (h : Cut firstChunk k text pieces) (hne : text ≠ []) :
    1 < pieces.length := by
  cases h with
  | last k => exact absurd rfl hne
  | piece _ h =>
    have := h.length_pos
    rw [List.length_cons]
    omega

/-- Only the last piece is empty. -/
theorem piece_eq_nil_iff (h : Cut firstChunk k text pieces) {j : ℕ} (hj : j < pieces.length) :
    pieces.getD j [] = [] ↔ j + 1 = pieces.length := by
  induction h generalizing j with
  | last k =>
    obtain rfl : j = 0 := by simpa using hj
    simp
  | @piece k text pieces hne h ih =>
    have hroom := chunkRoom_pos firstChunk k
    have hpos := h.length_pos
    rw [List.length_cons] at hj ⊢
    rcases j with _ | j
    · rw [List.getD_cons_zero, List.take_eq_nil_iff]
      constructor
      · rintro (hzero | hnil)
        · omega
        · exact absurd hnil hne
      · intro hlast
        omega
    · rw [List.getD_cons_succ, ih (by omega)]
      omega

/-- No chunk is larger than `CHUNK_SIZE`. -/
theorem length_le_chunkSize (h : Cut firstChunk k text pieces) (j : ℕ) :
    (chunkHeader firstChunk (firstChunk + (k + j))).length + (pieces.getD j []).length
      ≤ chunkSize := by
  induction h generalizing j with
  | last k =>
    have hheader := length_chunkHeader_le firstChunk (firstChunk + (k + j))
    have hnil : ([[]] : List (List UInt8)).getD j [] = [] := by cases j <;> rfl
    rw [hnil, List.length_nil, chunkSize]
    omega
  | @piece k text pieces hne h ih =>
    rcases j with _ | j
    · have hroom := chunkRoom_add firstChunk k
      rw [List.getD_cons_zero, List.length_take, Nat.add_zero]
      omega
    · rw [List.getD_cons_succ, show k + (j + 1) = k + 1 + j by omega]
      exact ih j

/-- All chunks but the last two are as large as a chunk can be. -/
theorem length_eq_chunkSize (h : Cut firstChunk k text pieces) {j : ℕ}
    (hj : j + 2 < pieces.length) :
    (chunkHeader firstChunk (firstChunk + (k + j))).length + (pieces.getD j []).length
      = chunkSize := by
  induction h generalizing j with
  | last k => simp at hj
  | @piece k text pieces hne h ih =>
    rw [List.length_cons] at hj
    rcases j with _ | j
    · have hroom := chunkRoom_add firstChunk k
      have hlong : chunkRoom firstChunk k < text.length := by
        by_contra hge
        have hle := h.length_le
        rw [List.length_drop] at hle
        omega
      rw [List.getD_cons_zero, List.length_take, Nat.add_zero]
      omega
    · rw [List.getD_cons_succ, show k + (j + 1) = k + 1 + j by omega]
      exact ih (by omega)

end Cut

/-! ## The loop forwards -/

/-- What the sizes say about the pieces that are measured. -/
structure Measured (firstChunk : ℕ) (pieces : List (List UInt8)) (s : MarkerSizes) : Prop where
  totalSize : s.totalSize = (message firstChunk pieces).length
  payloadSize : s.payloadSize = pieces.flatten.length
  totalSizes1 : 1 ≤ pieces.length →
    s.totalSizes1 = (chunkAt firstChunk pieces (pieces.length - 1)).length
  totalSizes0 : 2 ≤ pieces.length →
    s.totalSizes0 = (chunkAt firstChunk pieces (pieces.length - 2)).length

/-- The sequence number is not measured. -/
theorem Measured.withSeq {firstChunk : ℕ} {pieces : List (List UInt8)} {s : MarkerSizes}
    (h : Measured firstChunk pieces s) (seq : ℕ) :
    Measured firstChunk pieces { s with seq := seq } :=
  ⟨h.totalSize, h.payloadSize, h.totalSizes1, h.totalSizes0⟩

/-- The sizes after one more piece. -/
theorem Measured.step {firstChunk : ℕ} {pieces : List (List UInt8)} {s : MarkerSizes}
    (h : Measured firstChunk pieces s) (piece : List UInt8) :
    let chunkTotalSize :=
      (chunkHeader firstChunk (firstChunk + pieces.length)).length + piece.length
    Measured firstChunk (pieces ++ [piece])
      ⟨s.totalSizes1, chunkTotalSize, s.seq, s.totalSize + chunkTotalSize,
        s.payloadSize + piece.length⟩ := by
  constructor
  · rw [message_append, List.length_append, List.length_append, h.totalSize]
  · rw [List.flatten_append, List.length_append, h.payloadSize]
    simp
  · intro _
    rw [List.length_append, List.length_singleton, Nat.add_sub_cancel, chunkAt_last,
      List.length_append]
  · intro htwo
    rw [List.length_append, List.length_singleton] at htwo ⊢
    rw [h.totalSizes1 (by omega), chunkAt_append (by omega),
      show pieces.length + 1 - 2 = pieces.length - 1 by omega]

/-- What is measured is nothing exactly when no piece is. -/
theorem message_eq_nil_iff {firstChunk : ℕ} {pieces : List (List UInt8)} :
    (message firstChunk pieces).length = 0 ↔ pieces.length = 0 := by
  rcases pieces.eq_nil_or_concat with rfl | ⟨front, piece, rfl⟩
  · simp
  · have hpos := length_chunkHeader_pos firstChunk (firstChunk + front.length)
    rw [List.concat_eq_append, message_append]
    simp only [List.length_append, List.length_singleton]
    omega

/-- The size `int_length` tells for a header. -/
theorem length_chunkHeader (firstChunk k : ℕ) :
    (chunkHeader firstChunk (firstChunk + k)).length
      = (decimal (firstChunk + k)).length + if k = 0 then 1 else 2 := by
  rw [chunkHeader, List.length_append]
  by_cases hk : k = 0
  · rw [if_pos (by omega), if_pos hk]
    rfl
  · rw [if_neg (by omega), if_neg hk]
    rfl

/-- One round measures as much of the text as the chunk has room for. -/
theorem measureChunks_round {firstChunk : ℕ} {text : List UInt8} {initialPayloadSize : ℕ}
    {done : List (List UInt8)} {s : MarkerSizes} (hs : Measured firstChunk done s)
    (hseq : s.seq = firstChunk + done.length)
    (hinitial : initialPayloadSize = done.flatten.length + text.length) (hsmall : s.seq < 2 ^ 32)
    (fuel : ℕ) :
    let piece := text.take (chunkRoom firstChunk done.length)
    ∃ t, Measured firstChunk (done ++ [piece]) t ∧ t.seq = s.seq ∧
      measureChunks initialPayloadSize (fuel + 1) s =
        if piece.length = 0 then some t
        else measureChunks initialPayloadSize fuel { t with seq := (s.seq + 1) % uintModulus } := by
  intro piece
  have hlength : intLength s.seq = some (decimal s.seq).length := intLength_eq hsmall
  have hheader := length_chunkHeader firstChunk done.length
  have hzero : (s.totalSize = 0) = (done.length = 0) := by
    rw [hs.totalSize, message_eq_nil_iff]
  have hleft : initialPayloadSize - s.payloadSize = text.length := by
    rw [hinitial, hs.payloadSize]
    omega
  have hroom : chunkSize - (chunkHeader firstChunk (firstChunk + done.length)).length
      = chunkRoom firstChunk done.length := rfl
  have htaken : (if text.length < chunkRoom firstChunk done.length then text.length
      else chunkRoom firstChunk done.length) = piece.length := by
    rw [List.length_take]
    split_ifs <;> omega
  refine ⟨_, hs.step piece, rfl, ?_⟩
  rw [← hseq] at hheader hroom ⊢
  simp only [measureChunks, hlength, Option.bind_some, hzero, hleft, ← hheader, hroom, htaken]

/-- The loop measures the pieces into which the rest of the text is cut, and stops at the last. -/
theorem measureChunks_spec {firstChunk : ℕ} {text : List UInt8} {pieces : List (List UInt8)}
    {initialPayloadSize : ℕ} (fuel : ℕ) (done : List (List UInt8)) {s : MarkerSizes}
    (h : Cut firstChunk done.length text pieces) (hs : Measured firstChunk done s)
    (hseq : s.seq = firstChunk + done.length)
    (hinitial : initialPayloadSize = done.flatten.length + text.length)
    (hsmall : firstChunk + done.length + pieces.length ≤ 2 ^ 32) (hfuel : pieces.length ≤ fuel) :
    ∃ t, measureChunks initialPayloadSize fuel s = some t ∧
      Measured firstChunk (done ++ pieces) t ∧
      t.seq + 1 = firstChunk + (done ++ pieces).length := by
  generalize hk : done.length = k at h
  -- by induction on the cut; a round of the loop measures its first piece
  induction h generalizing done s fuel with
  | last k =>
    rw [List.length_singleton] at hsmall hfuel
    obtain ⟨fuel, rfl⟩ : ∃ n, fuel = n + 1 := ⟨fuel - 1, by omega⟩
    obtain ⟨t, hmeasured, htseq, hround⟩ :=
      measureChunks_round hs hseq hinitial (by omega) fuel
    rw [List.take_nil] at hmeasured hround
    refine ⟨t, hround, hmeasured, ?_⟩
    rw [List.length_append, List.length_singleton]
    omega
  | @piece k text pieces hne h ih =>
    subst hk
    rw [List.length_cons] at hsmall hfuel
    have hpos := h.length_pos
    obtain ⟨fuel, rfl⟩ : ∃ n, fuel = n + 1 := ⟨fuel - 1, by omega⟩
    obtain ⟨t, hmeasured, -, hround⟩ := measureChunks_round hs hseq hinitial (by omega) fuel
    have hpiece : (text.take (chunkRoom firstChunk done.length)).length ≠ 0 := by
      have := chunkRoom_pos firstChunk done.length
      have := List.length_pos_iff.mpr hne
      rw [List.length_take]
      omega
    have hnext : (s.seq + 1) % uintModulus = s.seq + 1 :=
      Nat.mod_eq_of_lt (by simp only [uintModulus]; omega)
    rw [if_neg hpiece, hnext] at hround
    rw [hround]
    -- the piece is done: what is left is cut as before
    have hdone : (done ++ [text.take (chunkRoom firstChunk done.length)]).length
        = done.length + 1 := by
      rw [List.length_append, List.length_singleton]
    obtain ⟨u, hu, hfinal, hlast⟩ := ih fuel _ (hmeasured.withSeq (s.seq + 1))
      (by simp only [hdone]; omega)
      (by
        rw [hinitial, List.flatten_append, List.length_append, List.length_drop,
          List.flatten_singleton, List.length_take]
        omega)
      (by omega) (by omega) hdone
    rw [List.append_assoc, List.singleton_append] at hfinal hlast
    exact ⟨u, hu, hfinal, hlast⟩

/-! ## The loop backwards -/

/-- One round of the second loop: the piece goes behind its header, the pieces before it are not
touched. -/
theorem placeChunk_spec {front piece p : List UInt8} (extra : List UInt8) {totalSize : ℕ}
    (hp : p.take (front.length + piece.length) = front ++ piece)
    (hfront : front.length ≤ totalSize)
    (hfit : totalSize + extra.length + piece.length ≤ p.length) :
    let placed := memcpy (memmove p (totalSize + extra.length) front.length piece.length)
      totalSize extra
    placed.take front.length = front ∧ placed.length = p.length ∧
      placed.drop totalSize
        = extra ++ piece ++ p.drop (totalSize + extra.length + piece.length) := by
  have hpiece : (p.drop front.length).take piece.length = piece := by
    rw [← Nat.add_sub_cancel_left front.length piece.length, ← List.drop_take, hp, List.drop_left]
  have htake : p.take front.length = front := by
    have := congrArg (List.take front.length) hp
    rwa [List.take_take, Nat.min_eq_left (by omega), List.take_left] at this
  simp only [memmove, memcpy, hpiece]
  set moved := overwrite p (totalSize + extra.length) piece with hmoved
  have hlength : moved.length = p.length := length_overwrite hfit
  have hheader : totalSize + extra.length ≤ moved.length := by omega
  refine ⟨?_, ?_, ?_⟩
  · rw [take_overwrite_of_le hheader hfront, hmoved, take_overwrite_of_le hfit (by omega), htake]
  · rw [length_overwrite hheader, hlength]
  · rw [drop_overwrite_self hheader, hmoved, drop_overwrite_self hfit, List.append_assoc]

/-- The loop turns the payload in front of the block into the message. The induction is on the pieces
that are not placed yet, from the last one on; what is behind their message is never read again. -/
theorem placeChunks_spec {firstChunk : ℕ} {pieces : List (List UInt8)} {s : MarkerSizes}
    {p : List UInt8} (fuel : ℕ) (hs : Measured firstChunk pieces s) (hpos : 0 < pieces.length)
    (hseq : s.seq + 1 = firstChunk + pieces.length)
    (hsmall : firstChunk + pieces.length ≤ 2 ^ 32)
    (hfull : ∀ k, k + 2 < pieces.length → (chunkAt firstChunk pieces k).length = chunkSize)
    (hp : p.take pieces.flatten.length = pieces.flatten)
    (hfit : (message firstChunk pieces).length ≤ p.length) (hfuel : pieces.length ≤ fuel) :
    placeChunks firstChunk fuel s p
      = some (message firstChunk pieces ++ p.drop (message firstChunk pieces).length) := by
  -- by induction from the back, as the chunks are placed
  induction pieces using List.reverseRecOn generalizing s p fuel with
  | nil => simp at hpos
  | append_singleton front piece ih =>
    have hn : (front ++ [piece]).length = front.length + 1 := by simp
    have hflat : (front ++ [piece]).flatten = front.flatten ++ piece := by simp
    have hchunk := hs.totalSizes1 (by omega)
    have hbefore := hs.totalSizes0
    have hpayload := hs.payloadSize
    have htotal := hs.totalSize
    have hle := length_flatten_le_message firstChunk front
    rw [hn] at hseq hsmall hfull hfuel hchunk hbefore
    rw [hflat, List.length_append] at hp hpayload
    rw [Nat.add_sub_cancel, chunkAt_last, List.length_append] at hchunk
    rw [message_append, List.length_append, List.length_append] at hfit htotal ⊢
    obtain ⟨fuel, rfl⟩ : ∃ n, fuel = n + 1 := ⟨fuel - 1, by omega⟩
    have hseqEq : s.seq = firstChunk + front.length := by omega
    set extra := chunkHeader firstChunk (firstChunk + front.length) with hextra
    have hsizes : s.totalSizes1 - extra.length = piece.length ∧
        s.payloadSize - piece.length = front.flatten.length ∧
        s.totalSize - s.totalSizes1 = (message firstChunk front).length := by omega
    obtain ⟨hfront, hlength, hback⟩ := placeChunk_spec extra hp hle (by omega)
    rw [Nat.add_assoc] at hback
    simp only [placeChunks, hseqEq, ← hextra, hsizes.1, hsizes.2.1, hsizes.2.2]
    -- the chunk that is placed last is the first one of the message
    by_cases hfirst : front = []
    · subst hfirst
      rw [if_pos (by simp)]
      simpa using hback
    · have hfrontPos : 0 < front.length := List.length_pos_iff.mpr hfirst
      have hprevious : (firstChunk + front.length + (uintModulus - 1)) % uintModulus + 1
          = firstChunk + front.length := by
        simp only [uintModulus]
        omega
      -- in front of this chunk there is a message that was measured in the same way
      have hstate : Measured firstChunk front
          ⟨chunkSize, s.totalSizes0, (firstChunk + front.length + (uintModulus - 1)) % uintModulus,
            (message firstChunk front).length, front.flatten.length⟩ := by
        refine ⟨rfl, rfl, fun _ => ?_, fun htwo => ?_⟩
        · show s.totalSizes0 = _
          rw [hbefore (by omega), show front.length + 1 - 2 = front.length - 1 by omega,
            chunkAt_append (by omega)]
        · show chunkSize = _
          rw [← hfull (front.length - 2) (by omega), chunkAt_append (by omega)]
      have hfull' : ∀ k, k + 2 < front.length →
          (chunkAt firstChunk front k).length = chunkSize := by
        intro k hk
        rw [← hfull k (by omega), chunkAt_append (by omega)]
      rw [if_neg (by omega), ih _ hstate hfrontPos hprevious (by omega) hfull' hfront (by omega)
        (by omega), hback]
      simp only [List.append_assoc]

/-! ## The whole function -/

/-- What a message is, chunk by chunk. -/
structure IsMessage (firstChunk : ℕ) (payload : List UInt8) (pieces : List (List UInt8)) : Prop where
  flatten_eq : pieces.flatten = payload
  two_le : 2 ≤ pieces.length
  piece_eq_nil_iff : ∀ k < pieces.length, pieces.getD k [] = [] ↔ k + 1 = pieces.length
  length_le : ∀ k, (chunkAt firstChunk pieces k).length ≤ chunkSize
  length_eq : ∀ k, k + 2 < pieces.length → (chunkAt firstChunk pieces k).length = chunkSize

theorem Cut.isMessage {firstChunk : ℕ} {payload : List UInt8} {pieces : List (List UInt8)}
    (h : Cut firstChunk 0 payload pieces) (hne : payload ≠ []) :
    IsMessage firstChunk payload pieces := by
  refine ⟨h.flatten_eq, h.one_lt_length hne, fun k hk => h.piece_eq_nil_iff hk, fun k => ?_,
    fun k hk => ?_⟩
  · have hle := h.length_le_chunkSize k
    rwa [Nat.zero_add, ← List.length_append] at hle
  · have heq := h.length_eq_chunkSize hk
    rwa [Nat.zero_add, ← List.length_append] at heq

/-- A message is longer than its payload by at most twelve bytes a chunk. -/
theorem length_message_le (firstChunk : ℕ) (pieces : List (List UInt8)) :
    (message firstChunk pieces).length ≤ pieces.flatten.length + 12 * pieces.length := by
  induction pieces using List.reverseRecOn with
  | nil => simp
  | append_singleton front piece ih =>
    have hheader := length_chunkHeader_le firstChunk (firstChunk + front.length)
    have hflat : (front ++ [piece]).flatten = front.flatten ++ piece := by simp
    rw [message_append, hflat]
    simp only [List.length_append, List.length_singleton]
    omega

/-- `guppy_insert_markers` turns a text into its message and returns the number of its chunks; it fails
only when the allocator refuses. -/
theorem guppyInsertMarkers_spec {buffer : CharBuffer} (hbuffer : buffer.Valid) {random : ℕ}
    (hrandom : 6 + random ≤ 2 ^ 31) (hpayload : 1 ≤ buffer.size) (hsmall : buffer.size < 2 ^ 30)
    (realloc : Realloc) :
    (guppyInsertMarkers random realloc buffer).Ensures
      (fun (firstChunk, chunkNumber) b => firstChunk = 6 + random ∧ b.Valid ∧
        ∃ pieces, IsMessage firstChunk buffer.text pieces ∧ b.text = message firstChunk pieces ∧
          chunkNumber = pieces.length)
      (fun _ b => b = buffer ∧ realloc = none) := by
  have hlt := hbuffer.size_lt
  have hlengthText : buffer.text.length = buffer.size := by
    rw [CharBuffer.text, List.length_take, hbuffer.length_p]
    omega
  have hne : buffer.text ≠ [] := by
    rintro hnil
    rw [hnil, List.length_nil] at hlengthText
    omega
  have hfirst : (6 + random) % uintModulus = 6 + random :=
    Nat.mod_eq_of_lt (by simp only [uintModulus]; omega)
  -- how the text is cut is known before the markers are
  obtain ⟨pieces, hcut⟩ := exists_cut (6 + random) 0 buffer.text
  have hmessage := hcut.isMessage hne
  have hpieces := hcut.length_le
  have hflat := hcut.flatten_eq
  have hle := length_message_le (6 + random) pieces
  have hge := length_flatten_le_message (6 + random) pieces
  rw [hflat, hlengthText] at hle hge
  have hzero : Measured (6 + random) [] ⟨0, 0, 6 + random, 0, 0⟩ :=
    ⟨rfl, rfl, fun h => absurd h (by simp), fun h => absurd h (by simp)⟩
  -- the first loop measures the message
  obtain ⟨s, hs, hmeasured, hlast⟩ := measureChunks_spec (buffer.size + 2) [] hcut hzero rfl
    (show buffer.size = [].flatten.length + buffer.text.length by simp [hlengthText])
    (by simp only [List.length_nil]; omega) (by omega)
  rw [List.nil_append] at hmeasured hlast
  simp only [guppyInsertMarkers, hfirst, hs, hmeasured.totalSize]
  refine (stringResize_spec hbuffer hge (by omega) realloc).andThen ?_ fun _ _ hfail => hfail
  rintro _ b ⟨hvalid, hsize, htext⟩
  have hcapacity := hvalid.size_lt
  have hlengthP := hvalid.length_p
  have htwo := hmessage.two_le
  -- the second one places its chunks, from the back
  have hplace := placeChunks_spec (b.size + 2) hmeasured (by omega) hlast (by omega)
    hmessage.length_eq (by rw [hflat, hlengthText]; exact htext) (by omega) (by omega)
  rw [hplace]
  refine ⟨rfl, ⟨?_, hvalid.size_lt⟩, pieces, hmessage, ?_, ?_⟩
  · rw [List.length_append, List.length_drop]
    simp only
    omega
  · rw [CharBuffer.text, hsize, List.take_left]
  · simp only [uintModulus]
    omega

/-- The chunks of a message, written out. -/
theorem chunkAt_eq (firstChunk : ℕ) (pieces : List (List UInt8)) :
    chunkAt firstChunk pieces = fun k =>
      decimal (firstChunk + k) ++ (if k = 0 then ascii " " else crlf) ++ pieces.getD k [] := by
  funext k
  rw [chunkAt, chunkHeader]
  by_cases hk : k = 0
  · rw [if_pos (by omega), if_pos hk]
  · rw [if_neg (by omega), if_neg hk]

/-- The message of a text: every chunk starts with its number, the first one's ends with a space and
the others' with an end of line; the pieces are the text; only the last one is empty; and every chunk
but the last two is full. -/
theorem guppyInsertMarkers_chunks {buffer : CharBuffer} (hbuffer : buffer.Valid) {random : ℕ}
    (hrandom : 6 + random ≤ 2 ^ 31) (hpayload : 1 ≤ buffer.size) (hsmall : buffer.size < 2 ^ 30)
    (realloc : Realloc) :
    (guppyInsertMarkers random realloc buffer).Ensures
      (fun (firstChunk, chunkNumber) b => firstChunk = 6 + random ∧
        ∃ pieces : List (List UInt8), pieces.length = chunkNumber ∧
          pieces.flatten = buffer.text ∧
          let chunk (k : ℕ) : List UInt8 :=
            decimal (firstChunk + k) ++ (if k = 0 then ascii " " else crlf) ++ pieces.getD k []
          b.text = (List.range chunkNumber).flatMap chunk ∧
            ∀ k < chunkNumber, (pieces.getD k [] = [] ↔ k + 1 = chunkNumber) ∧
              (chunk k).length ≤ chunkSize ∧ (k + 2 < chunkNumber → (chunk k).length = chunkSize))
      (fun _ b => b = buffer ∧ realloc = none) := by
  refine (guppyInsertMarkers_spec hbuffer hrandom hpayload hsmall realloc).mono ?_ fun _ _ h => h
  rintro ⟨firstChunk, chunkNumber⟩ b ⟨hfirst, -, pieces, hmessage, htext, rfl⟩
  have hle := hmessage.length_le
  have hfull := hmessage.length_eq
  rw [message, chunkAt_eq] at htext
  rw [chunkAt_eq] at hle hfull
  exact ⟨hfirst, pieces, rfl, hmessage.flatten_eq, htext, fun k hk =>
    ⟨hmessage.piece_eq_nil_iff k hk, hle k, hfull k⟩⟩

/-- A text of six bytes after the number six: one chunk with the text and one that ends the message. -/
theorem guppyInsertMarkers_chunks_six :
    (guppyInsertMarkers 0 (some fun _ => 0) ⟨ascii "=> /a\n" ++ [0, 0], 6, 8⟩).Ensures
      (fun (firstChunk, chunkNumber) b => firstChunk = 6 + 0 ∧
        ∃ pieces : List (List UInt8), pieces.length = chunkNumber ∧
          pieces.flatten = ascii "=> /a\n" ∧
          let chunk (k : ℕ) : List UInt8 :=
            decimal (firstChunk + k) ++ (if k = 0 then ascii " " else crlf) ++ pieces.getD k []
          b.text = (List.range chunkNumber).flatMap chunk ∧
            ∀ k < chunkNumber, (pieces.getD k [] = [] ↔ k + 1 = chunkNumber) ∧
              (chunk k).length ≤ chunkSize ∧ (k + 2 < chunkNumber → (chunk k).length = chunkSize))
      (fun _ b => b = ⟨ascii "=> /a\n" ++ [0, 0], 6, 8⟩ ∧
        (some fun _ => 0 : Realloc) = none) :=
  guppyInsertMarkers_chunks
    (show CharBuffer.Valid ⟨ascii "=> /a\n" ++ [0, 0], 6, 8⟩ from ⟨rfl, .inl (by decide)⟩)
    (by decide) (by decide) (by decide) _

end Twinkleshine
