import Twinkleshine.Server.LowLevel

/-!
# What `server_receive_stream` receives

The reads fill the parts of the room in the ring from the front, and what is not filled is given back:
the ring grows by the bytes that were read, never more than were asked for. A call that asks for a byte
reads one, or learns that there is none.
-/

namespace Twinkleshine

open Library

/-! ## Reads -/

/-- The reads deliver no more than the parts can hold. -/
theorem readParts_meets (parts : List (ℕ × ReadAnswer)) :
    (readParts parts).Meets False
      (fun _ r => r.bytes.length ≤ (parts.map Prod.fst).sum ∧
        (0 < (parts.map Prod.fst).sum → 0 < r.bytes.length ∨ r.ended = true ∨ r.exhausted = true))
      fun _ r => r.bytes.length ≤ (parts.map Prod.fst).sum := by
  -- by induction on the parts: a full read goes on with the next one
  induction parts with
  | nil => exact ⟨Nat.le_refl _, fun h => absurd h (Nat.lt_irrefl _)⟩
  | cons part parts ih =>
    obtain ⟨size, answer⟩ := part
    rw [readParts.eq_def, List.map_cons, List.sum_cons]
    dsimp only
    by_cases hzero : size = 0
    · rw [if_pos hzero, hzero, Nat.zero_add]
      exact ih
    rw [if_neg hzero]
    rcases answer with ⟨first, rest⟩ | _ | _ | errno
    · dsimp only
      have hle : ((first :: rest).take size).length ≤ size := by
        rw [List.length_take]
        omega
      have hpos : 0 < ((first :: rest).take size).length := by
        rw [List.length_take, List.length_cons]
        omega
      by_cases hshort : ((first :: rest).take size).length < size
      · rw [if_pos hshort]
        exact ⟨by dsimp only; omega, fun _ => .inr (.inr rfl)⟩
      · rw [if_neg hshort]
        refine (ih.mapState _).mono ?_ ?_
        · rintro _ _ ⟨r, rfl, hr, -⟩
          refine ⟨?_, fun _ => .inl ?_⟩
          · dsimp only
            rw [List.length_append]
            omega
          · dsimp only
            rw [List.length_append]
            omega
        · rintro _ _ ⟨r, rfl, hr⟩
          dsimp only
          rw [List.length_append]
          omega
    · exact ⟨Nat.zero_le _, fun _ => .inr (.inl rfl)⟩
    · exact ⟨Nat.zero_le _, fun _ => .inr (.inr rfl)⟩
    · exact Nat.zero_le _

/-! ## Streams -/

/-- What a call of `server_receive_stream` that returns did: these bytes were received, and flags are
set for the end of the connection or of its data. -/
structure StreamReceived (size : ℕ) (flags : ConnectionFlags) (stream : Ring) (bytes : List UInt8)
    (r : Ring × ConnectionFlags) : Prop where
  valid : r.1.Valid
  content : ringContent r.1 = ringContent stream ++ bytes
  grown : r.1.size = stream.size + bytes.length
  length_le : bytes.length ≤ size
  saturated : r.2.saturated = flags.saturated
  closed : flags.closed = true → r.2.closed = true
  exhausted : flags.exhausted = true → r.2.exhausted = true
  progress : 0 < size → 0 < bytes.length ∨ r.2.closed = true ∨ r.2.exhausted = true

/-- The stream grows by what was received. Only the allocator and the kernel make the call fail. -/
theorem serverReceiveStream_meets {stream : Ring} (h : stream.Valid) {size : ℕ}
    (hsize : stream.size + size ≤ 2 ^ 63) (answers : ReceiveAnswers) (flags : ConnectionFlags) :
    (serverReceiveStream size answers flags stream).Meets False
      (fun _ r => ∃ bytes, StreamReceived size flags stream bytes r)
      fun e _ => e.eef = .closeLog := by
  unfold serverReceiveStream
  refine ((ringReserve_spec h hsize answers.realloc).meets False).handle (fun _ r hr => ?_)
    fun e r _ => ?_
  swap
  · exact rfl
  obtain ⟨hvalid, hcontent, hsame, hcapacity, -⟩ := hr
  have hfits : r.size + size ≤ r.capacity := hsame ▸ hcapacity
  have hcap := hvalid.capacity_le
  refine ((ringPushGet_fill hvalid (show r.size + size < 2 ^ 64 by omega)).meets False).handle
    (fun value pushed hpushed => ?_) fun e r' hr' => absurd hr'.2 (by omega)
  obtain ⟨hparts, hfill⟩ := hpushed
  have hsum : ((value.reads answers.reads).map Prod.fst).sum = size := by
    rw [← hparts]
    rfl
  refine (readParts_meets (value.reads answers.reads)).handle (fun _ reception hread => ?_)
    fun errno reception _ => ?_
  swap
  · exact rfl
  rw [hsum] at hread
  obtain ⟨r', hunpush, hvalid', hcontent', hgrown⟩ := hfill reception.bytes hread.1
  dsimp only
  rw [hparts, hunpush]
  refine ⟨reception.bytes, hvalid', hcontent'.trans (by rw [hcontent]), hgrown.trans (by rw [hsame]),
    hread.1, rfl, fun hflag => ?_, fun hflag => ?_, fun hpos => ?_⟩
  · simp [hflag]
  · simp [hflag]
  · rcases hread.2 hpos with hbytes | hended | hexhausted
    · exact .inl hbytes
    · exact .inr (.inl (by simp [hended]))
    · exact .inr (.inr (by simp [hexhausted]))

/-! ## Every byte that was read, and the flags -/

/-- The bytes a read delivers that asks for `asked` bytes. -/
def ReadAnswer.delivered (asked : ℕ) : ReadAnswer → List UInt8
  | .data first rest => (first :: rest).take asked
  | .ended | .wouldBlock | .failed _ => []

/-- The read returned zero. -/
def ReadAnswer.isEnd : ReadAnswer → Bool
  | .ended => true
  | .data _ _ | .wouldBlock | .failed _ => false

/-- The read would block, or delivered at least one but fewer bytes than asked. -/
def ReadAnswer.exhausts (asked : ℕ) : ReadAnswer → Bool
  | .data first rest => ((first :: rest).take asked).length < asked
  | .wouldBlock => true
  | .ended | .failed _ => false

/-- The reads that are made, each with what it asks for: one for every part that is not empty, up to the
first that does not fill its part. -/
def readsMade : List (ℕ × ReadAnswer) → List (ℕ × ReadAnswer)
  | [] => []
  | (asked, answer) :: parts =>
    if asked = 0 then readsMade parts
    else if (answer.delivered asked).length = asked then (asked, answer) :: readsMade parts
    else [(asked, answer)]

/-- What reads deliver, one after the other. -/
def deliveredBytes (reads : List (ℕ × ReadAnswer)) : List UInt8 :=
  reads.flatMap fun read => read.2.delivered read.1

/-- What the loop leaves behind is what the reads that were made delivered and reported. -/
theorem readParts_eq {parts : List (ℕ × ReadAnswer)} {r : Reception} (h : readParts parts = .ok () r) :
    r = ⟨deliveredBytes (readsMade parts), (readsMade parts).any (·.2.isEnd),
      (readsMade parts).any fun read => read.2.exhausts read.1⟩ := by
  -- by induction on the parts: the reads end with the first one that is not full
  induction parts generalizing r with
  | nil => exact (Outcome.ok.inj h).2.symm
  | cons part parts ih =>
    obtain ⟨asked, answer⟩ := part
    rw [readParts.eq_def] at h
    dsimp only at h
    rw [readsMade]
    by_cases hzero : asked = 0
    · rw [if_pos hzero] at h ⊢
      exact ih h
    rw [if_neg hzero] at h ⊢
    rcases answer with ⟨first, rest⟩ | _ | _ | errno
    · have hle : ((first :: rest).take asked).length ≤ asked := List.length_take_le ..
      have hdelivered : (ReadAnswer.data first rest).delivered asked = (first :: rest).take asked := rfl
      have hexhausts : (ReadAnswer.data first rest).exhausts asked
          = decide (((first :: rest).take asked).length < asked) := rfl
      rw [hdelivered]
      dsimp only at h
      by_cases hshort : ((first :: rest).take asked).length < asked
      · rw [if_pos hshort] at h
        rw [if_neg (show ¬ ((first :: rest).take asked).length = asked by omega),
          ← (Outcome.ok.inj h).2]
        simp only [deliveredBytes, List.flatMap_singleton, List.any_cons, List.any_nil, hdelivered,
          hexhausts, hshort, decide_true, Bool.or_false, ReadAnswer.isEnd]
      · rw [if_neg hshort] at h
        obtain ⟨tail, htail, rfl⟩ := Outcome.mapState_eq_ok.mp h
        rw [if_pos (show ((first :: rest).take asked).length = asked by omega), ih htail]
        simp only [deliveredBytes, List.flatMap_cons, List.any_cons, hdelivered, hexhausts, hshort,
          decide_false, Bool.false_or, ReadAnswer.isEnd]
    · have hnone : ¬ (ReadAnswer.ended.delivered asked).length = asked := fun heq => hzero heq.symm
      rw [if_neg hnone, ← (Outcome.ok.inj h).2]
      rfl
    · have hnone : ¬ (ReadAnswer.wouldBlock.delivered asked).length = asked := fun heq => hzero heq.symm
      rw [if_neg hnone, ← (Outcome.ok.inj h).2]
      rfl
    · cases h

/-- Whatever the ring holds and wherever it wraps, when the call returns the content is the old one and
then the bytes that were read; the flags are set for what the reads reported. -/
theorem serverReceiveStream_reads {stream r : Ring} (h : stream.Valid) {size : ℕ}
    {answers : ReceiveAnswers} {flags flags' : ConnectionFlags}
    (hreturns : serverReceiveStream size answers flags stream = .ok () (r, flags')) :
    r.Valid ∧ ∃ size0 size1, size0 + size1 = size ∧
      let reads := readsMade [(size0, answers.reads.1), (size1, answers.reads.2)]
      ringContent r = ringContent stream ++ deliveredBytes reads ∧
        flags'.closed = (flags.closed || reads.any (·.2.isEnd)) ∧
        flags'.exhausted = (flags.exhausted || reads.any fun read => read.2.exhausts read.1) ∧
        flags'.saturated = flags.saturated := by
  have hreceives : (serverReceiveStream size answers flags stream).Meets True
      (fun _ w => w.1.Valid ∧ ∃ size0 size1, size0 + size1 = size ∧
        let reads := readsMade [(size0, answers.reads.1), (size1, answers.reads.2)]
        ringContent w.1 = ringContent stream ++ deliveredBytes reads ∧
          w.2.closed = (flags.closed || reads.any (·.2.isEnd)) ∧
          w.2.exhausted = (flags.exhausted || reads.any fun read => read.2.exhausts read.1) ∧
          w.2.saturated = flags.saturated) fun _ _ => True := by
    unfold serverReceiveStream
    refine ((ringReserve_meets h _ answers.realloc).of_imp fun _ => trivial).handle
      (fun _ reserved hreserved => ?_) fun _ _ _ => trivial
    obtain ⟨hvalid, hcontent, hsame, hcapacity, -⟩ := hreserved
    have hcap := hvalid.capacity_le
    refine ((ringPushGet_fill hvalid (show reserved.size + size < 2 ^ 64 by omega)).meets True).handle
      (fun value pushed hpushed => ?_) fun _ _ _ => trivial
    obtain ⟨hparts, hfill⟩ := hpushed
    have hread : (readParts (value.reads answers.reads)).Meets True (fun _ reception =>
        reception.bytes.length ≤ value.part0.size + value.part1.size ∧
          reception = ⟨deliveredBytes (readsMade (value.reads answers.reads)),
            (readsMade (value.reads answers.reads)).any (·.2.isEnd),
            (readsMade (value.reads answers.reads)).any fun read => read.2.exhausts read.1⟩)
        fun _ _ => True := by
      refine Outcome.meets_of_forall (fun _ reception hok => ⟨?_, readParts_eq hok⟩) fun _ _ _ => trivial
      exact ((readParts_meets _).of_eq_ok hok).1
    -- the room that was not filled is given back
    refine hread.handle (fun _ reception hreception => ?_) fun _ _ _ => trivial
    obtain ⟨hle, hreads⟩ := hreception
    obtain ⟨r', hunpush, hvalid', hcontent', -⟩ := hfill reception.bytes (hparts ▸ hle)
    dsimp only
    rw [hparts, hunpush]
    refine ⟨hvalid', value.part0.size, value.part1.size, hparts, ?_, ?_, ?_, rfl⟩
    · rw [hcontent', hcontent, hreads]
      rfl
    · rw [hreads]
      rfl
    · rw [hreads]
      rfl
  exact hreceives.of_eq_ok hreturns

/-- A ring of eight bytes whose content ends just before the edge of the block: the first read fills the
bytes in front of the edge, the second is short. -/
theorem serverReceiveStream_reads_wrapped : ∃ (r : Ring) (flags : ConnectionFlags), r.Valid ∧
    ringContent r = ascii "abcdefg" ∧ flags.exhausted = true ∧ flags.closed = false := by
  have hvalid : (⟨[0, 0, 0, 0, 97, 98, 0, 0], 2, 8, 4⟩ : Ring).Valid :=
    ⟨⟨rfl, by decide, by decide⟩, .inr ⟨3, by decide, rfl⟩⟩
  have hrun : (serverReceiveStream 6 ⟨some fun _ => 0, .data 99 [100, 101], .data 101 [102, 103]⟩ .no
      ⟨[0, 0, 0, 0, 97, 98, 0, 0], 2, 8, 4⟩).returnsIn (fun w => ringContent w.1 = ascii "abcdefg" ∧
        w.2.exhausted = true ∧ w.2.closed = false) = true := by decide +kernel
  obtain ⟨_, ⟨r, flags⟩, hreturns, hcheck⟩ := Outcome.exists_of_returnsIn hrun
  exact ⟨r, flags, (serverReceiveStream_reads hvalid hreturns).1, of_decide_eq_true hcheck⟩

end Twinkleshine
