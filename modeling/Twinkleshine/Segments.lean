import Twinkleshine.Strings

/-!
# Inserting and replacing segments of a string

Reference: `string_insert_mem`, `string_replace_mem` in `commonlib/source/string.c`.

Both functions move what is behind the segment and then copy the new text over it. The number of bytes
they move does not depend on where the segment is, so they move as many bytes from behind the text as
there are before the segment, and need room for them.
-/

namespace Twinkleshine

open Library

/-! ## The functions -/

/-- `string_insert_mem` -/
def stringInsertMem (string : CharBuffer) (begin : ℕ) (other : List UInt8) (realloc : Realloc) :
    Outcome StringFault CharBuffer Unit :=
  (if other.length > 0 then
    let oldSize := string.size
    let newSize := sizeAdd oldSize other.length
    (stringResizeWithin string newSize realloc).andThen fun _ string =>
    string.move (begin + other.length) begin oldSize
  else .ok () string).andThen fun _ string =>
  string.write begin other

/-- `string_replace_mem` -/
def stringReplaceMem (string : CharBuffer) (begin size : ℕ) (other : List UInt8)
    (realloc : Realloc) : Outcome StringFault CharBuffer Unit :=
  if sizeAdd begin size < string.size then
    (if other.length ≠ size then
      let oldSize := string.size
      let newSize := sizeSub (sizeAdd oldSize other.length) size
      -- expanding
      (if other.length > size then stringResizeWithin string newSize realloc
        else .ok () string).andThen fun _ string =>
      (string.move (begin + other.length) (begin + size) (sizeSub oldSize size)).andThen fun _ string =>
      -- shrinking
      if other.length < size then
        (string.write newSize [0]).andThen fun _ string => .ok () { string with size := newSize }
      else .ok () string
    else .ok () string).andThen fun _ string =>
    string.write begin other
  else .error (.failed "begin + size < string->size") string

/-- The text is inserted, and no byte outside the block is touched. -/
def Inserts (string : CharBuffer) (begin : ℕ) (other : List UInt8) (junk : ℕ → UInt8) : Prop :=
  (stringInsertMem string begin other (some junk)).Ensures
    (fun _ t => t.IsString ∧ t.text = string.text.take begin ++ other ++ string.text.drop begin)
    fun _ _ => False

/-- The segment is replaced, and no byte outside the block is touched. -/
def Replaces (string : CharBuffer) (begin size : ℕ) (other : List UInt8) (junk : ℕ → UInt8) : Prop :=
  (stringReplaceMem string begin size other (some junk)).Ensures
    (fun _ t => t.IsString ∧
      t.text = string.text.take begin ++ other ++ string.text.drop (begin + size))
    fun _ _ => False

/-! ## Moving the tail -/

theorem length_memmove {block : List UInt8} {destination source size : ℕ}
    (hsource : source + size ≤ block.length) (hdestination : destination + size ≤ block.length) :
    (memmove block destination source size).length = block.length := by
  have hread : ((block.drop source).take size).length = size := by
    rw [List.length_take, List.length_drop]
    omega
  exact length_overwrite (by omega)

/-- Moving the tail makes room for the new segment. -/
theorem memmove_tail (a seg b Z : List UInt8) (k : ℕ)
    (hfit : a.length + k ≤ (a ++ (seg ++ (b ++ Z))).length) :
    ∃ m : List UInt8, m.length = k ∧
      memmove (a ++ (seg ++ (b ++ Z))) (a.length + k) (a.length + seg.length) (a.length + b.length)
        = a ++ (m ++ (b ++ (Z.take a.length ++ (a ++ (seg ++ (b ++ Z))).drop
          (a.length + k + (b.length + (Z.take a.length).length))))) := by
  rw [List.length_append] at hfit
  have hread : ((a ++ (seg ++ (b ++ Z))).drop (a.length + seg.length)).take (a.length + b.length)
      = b ++ Z.take a.length := by
    rw [← List.drop_drop, List.drop_left, List.drop_left, Nat.add_comm, List.take_append,
      List.take_of_length_le (by omega), Nat.add_sub_cancel_left]
  refine ⟨(seg ++ (b ++ Z)).take k, ?_, ?_⟩
  · rw [List.length_take]
    omega
  · have hfront : (a ++ (seg ++ (b ++ Z))).take (a.length + k) = a ++ (seg ++ (b ++ Z)).take k := by
      rw [List.take_add, List.take_left, List.drop_left]
    rw [memmove, hread, memcpy, overwrite, hfront]
    simp only [List.append_assoc, List.length_append]

/-- Behind the moved tail is a terminator: the old one that was moved with it, or the new one. -/
theorem exists_terminator {a Z T : List UInt8} {k n : ℕ} (hnew : T[a.length + k + n]? = some 0)
    (hold : a ≠ [] → Z[0]? = some 0) :
    ∃ rest, Z.take a.length ++ T.drop (a.length + k + (n + (Z.take a.length).length)) = 0 :: rest := by
  cases a with
  | nil =>
    obtain ⟨hlt, hget⟩ := List.getElem?_eq_some_iff.mp hnew
    refine ⟨T.drop (([] : List UInt8).length + k + n + 1), ?_⟩
    rw [List.length_nil, List.take_zero, List.nil_append, List.length_nil, Nat.add_zero]
    exact (List.drop_eq_getElem_cons hlt).trans (congrArg (· :: _) hget)
  | cons c front =>
    have hhead := hold (List.cons_ne_nil _ _)
    cases Z with
    | nil => cases hhead
    | cons z behind =>
      cases hhead
      exact ⟨_, rfl⟩

namespace CharBuffer

variable {t : CharBuffer} {a seg b Z other : List UInt8}

/-- Writing the new segment into the room that was made for it. -/
theorem write_segment {m rest : List UInt8} (hcapacity : t.capacity = t.p.length)
    (hp : t.p = a ++ (m ++ (b ++ 0 :: rest))) (hm : m.length = other.length)
    (hsize : t.size = a.length + other.length + b.length) :
    (t.write a.length other).Ensures (fun _ t' => t'.IsString ∧ t'.text = a ++ other ++ b)
      fun _ _ => False := by
  have hfit : a.length + other.length ≤ t.p.length := by
    rw [hp, List.length_append, List.length_append]
    omega
  have hholds : CharBuffer.Holds { t with p := overwrite t.p a.length other } (a ++ other ++ b)
      rest := by
    refine ⟨?_, ?_, ?_⟩
    · rw [length_overwrite hfit]
      exact hcapacity
    · rw [List.length_append, List.length_append]
      exact hsize
    · dsimp only
      rw [hp, overwrite_middle hm.symm]
      simp only [List.append_assoc]
  rw [write_of_le hfit]
  exact ⟨hholds.isString, hholds.text_eq⟩

/-- Expanding needs room for the bytes that are moved from behind the text. -/
theorem move_expand_iff (hcapacity : t.capacity = t.p.length) (hp : t.p = a ++ (seg ++ (b ++ Z)))
    (hsize : t.size = a.length + other.length + b.length) (hnew : t.p[t.size]? = some 0)
    (hold : a ≠ [] → Z[0]? = some 0) (hlong : seg.length ≤ other.length) :
    ((t.move (a.length + other.length) (a.length + seg.length) (a.length + b.length)).andThen
      fun _ t => t.write a.length other).Ensures
        (fun _ t' => t'.IsString ∧ t'.text = a ++ other ++ b) (fun _ _ => False) ↔
      a.length + t.size ≤ t.p.length := by
  by_cases hfit : a.length + t.size ≤ t.p.length
  · refine iff_of_true ?_ hfit
    obtain ⟨m, hm, hmove⟩ := memmove_tail a seg b Z other.length (by rw [← hp]; omega)
    rw [hsize] at hnew
    obtain ⟨rest, hrest⟩ := exists_terminator hnew hold
    have hlength : (memmove t.p (a.length + other.length) (a.length + seg.length)
        (a.length + b.length)).length = t.p.length := length_memmove (by omega) (by omega)
    rw [← hp, hrest] at hmove
    rw [CharBuffer.move, if_pos ⟨by omega, by omega⟩, Outcome.andThen_ok]
    exact write_segment (hcapacity.trans hlength.symm) hmove hm hsize
  · refine iff_of_false ?_ hfit
    rw [CharBuffer.move, if_neg (by omega)]
    exact id

/-- Shrinking reads as many bytes behind the text as there are before the segment. -/
theorem move_shrink_iff (hcapacity : t.capacity = t.p.length)
    (hp : t.p = a ++ (seg ++ (b ++ 0 :: Z))) (hshort : other.length < seg.length) :
    ((t.move (a.length + other.length) (a.length + seg.length) (a.length + b.length)).andThen
      fun _ t => (t.write (a.length + other.length + b.length) [0]).andThen fun _ t =>
        CharBuffer.write { t with size := a.length + other.length + b.length } a.length other).Ensures
        (fun _ t' => t'.IsString ∧ t'.text = a ++ other ++ b) (fun _ _ => False) ↔
      a.length + (a.length + seg.length + b.length) ≤ t.p.length := by
  by_cases hfit : a.length + (a.length + seg.length + b.length) ≤ t.p.length
  · refine iff_of_true ?_ hfit
    have hplength : t.p.length = a.length + (seg.length + (b.length + (Z.length + 1))) := by
      rw [hp]
      simp only [List.length_append, List.length_cons]
    -- what stands behind the segment moves to the front, with bytes of no meaning behind it
    obtain ⟨m, hm, hmove⟩ := memmove_tail a seg b (0 :: Z) other.length (by rw [← hp]; omega)
    rw [← hp] at hmove
    have hlength : (memmove t.p (a.length + other.length) (a.length + seg.length)
        (a.length + b.length)).length = t.p.length := length_memmove (by omega) (by omega)
    rw [CharBuffer.move, if_pos ⟨by omega, by omega⟩, Outcome.andThen_ok]
    -- what the new terminator is written over
    generalize memmove t.p (a.length + other.length) (a.length + seg.length)
      (a.length + b.length) = p at hlength hmove ⊢
    generalize (0 :: Z).take a.length ++ _ = behind at hmove
    have hbehind : 0 < behind.length := by
      rw [hmove, hplength] at hlength
      simp only [List.length_append] at hlength
      omega
    obtain ⟨c, rest, rfl⟩ := List.exists_cons_of_length_pos hbehind
    have hfit' : a.length + other.length + b.length + [(0 : UInt8)].length ≤ p.length := by
      rw [List.length_singleton]
      omega
    have hpos : a.length + other.length + b.length = (a ++ (m ++ b)).length := by
      rw [List.length_append, List.length_append]
      omega
    have hwritten : overwrite p (a.length + other.length + b.length) [0]
        = a ++ (m ++ (b ++ 0 :: rest)) := by
      have hmiddle : [(0 : UInt8)].length = [c].length := rfl
      have hp' : p = (a ++ (m ++ b)) ++ ([c] ++ rest) := by
        rw [hmove]
        simp only [List.append_assoc, List.singleton_append]
      rw [hpos, hp', overwrite_middle hmiddle]
      simp only [List.append_assoc, List.singleton_append]
    rw [write_of_le hfit', Outcome.andThen_ok]
    refine write_segment ?_ hwritten hm rfl
    dsimp only
    rw [length_overwrite hfit', hlength, hcapacity]
  · refine iff_of_false ?_ hfit
    rw [CharBuffer.move, if_neg (by omega)]
    exact id

end CharBuffer

/-! ## The condition -/

section

variable {string : CharBuffer} {other : List UInt8}

/-- A string resized to a longer text: the old text with its terminator, and the new terminator. -/
theorem stringResizeWithin_longer (h : string.IsString) {size : ℕ} (hlonger : string.size < size)
    (hsize : size < 2 ^ 63) (junk : ℕ → UInt8) :
    ∃ t Z, stringResizeWithin string size (some junk) = .ok () t ∧
      IsLeast (doublings string.capacity (size + 1)) t.p.length ∧ t.capacity = t.p.length ∧
      t.size = size ∧ t.p = string.text ++ Z ∧ t.p[size]? = some 0 ∧
      (string.text ≠ [] → Z[0]? = some 0) := by
  obtain ⟨t, grown, heq, hleast, ht, hlength⟩ :=
    stringResizeWithin_granted h.length_p hsize junk
  have hcapacity := hleast.1.1
  rw [ht.capacity_eq] at hleast
  rw [ht.capacity_eq, hlength] at hcapacity
  have hfront : ((string.p ++ grown).take size).length = size := by
    rw [List.length_take]
    omega
  have htake := h.take_append grown (size - string.size)
  rw [Nat.add_sub_cancel' (Nat.le_of_lt hlonger)] at htake
  refine ⟨t, ((string.p ++ grown).drop string.size).take (size - string.size)
    ++ 0 :: (string.p ++ grown).drop (size + 1), heq, hleast, ht.capacity_eq,
    ht.size_eq.trans hfront, ?_, ?_, ?_⟩
  · rw [ht.p_eq, htake, List.append_assoc]
  · rw [ht.p_eq, List.getElem?_append_right (Nat.le_of_eq hfront), hfront, Nat.sub_self]
    rfl
  · intro hne
    obtain rfl | ⟨rest, hrest⟩ := h.cases
    · exact absurd rfl hne
    · obtain ⟨j, hj⟩ : ∃ j, size - string.size = j + 1 := ⟨size - string.size - 1, by omega⟩
      have hdrop : (string.p ++ grown).drop string.size = 0 :: (rest ++ grown) := by
        rw [hrest.p_eq, hrest.size_eq, List.append_assoc, List.drop_left]
        rfl
      rw [hdrop, hj, List.take_succ_cons]
      rfl

/-- The least doubling has room when every doubling has. -/
theorem le_doubling_iff {capacity needed m n : ℕ} (h : IsLeast (doublings capacity needed) m) :
    n ≤ m ↔ ∀ m ∈ doublings capacity needed, n ≤ m := by
  constructor
  · intro hle m' hm'
    exact hle.trans (h.2 hm')
  · intro hall
    exact hall m h.1

/-- Where inserting works: nothing is inserted, or whatever the capacity grows to has room for the
new text after as many bytes as there are before the position. -/
def InsertFits (string : CharBuffer) (begin : ℕ) (other : List UInt8) : Prop :=
  other = [] ∨ ∀ m ∈ doublings string.capacity (string.size + other.length + 1),
    begin + (string.size + other.length) ≤ m

/-- Where replacing works: the segment lies in the text, and its length does not change, or there is
room for the longer one of the old and the new text after as many bytes as there are before it. -/
def ReplaceFits (string : CharBuffer) (begin size : ℕ) (other : List UInt8) : Prop :=
  begin + size < string.size ∧
    (other.length = size ∨
      other.length < size ∧ begin + string.size ≤ string.capacity ∨
      size < other.length ∧ ∀ m ∈ doublings string.capacity (string.size + other.length - size + 1),
        begin + (string.size + other.length - size) ≤ m)

theorem inserts_iff (h : string.IsString) (hmem : string.p.length + other.length < 2 ^ 63)
    {begin : ℕ} (hbegin : begin ≤ string.size) (junk : ℕ → UInt8) :
    Inserts string begin other junk ↔ InsertFits string begin other := by
  have hlength := h.length_text
  have hsize : string.size ≤ string.p.length := by
    rw [← hlength, CharBuffer.text]
    exact List.length_take_le' _ _
  obtain ⟨a, b, htext, rfl⟩ : ∃ a b, string.text = a ++ b ∧ a.length = begin :=
    ⟨_, _, (List.take_append_drop begin _).symm, by rw [List.length_take]; omega⟩
  rw [htext, List.length_append] at hlength
  rw [Inserts, InsertFits, htext, List.take_left, List.drop_left]
  by_cases hnil : other = []
  · refine iff_of_true ?_ (.inl hnil)
    subst hnil
    have hfit : a.length + ([] : List UInt8).length ≤ string.p.length := by
      rw [List.length_nil]
      omega
    have hwrite : stringInsertMem string a.length [] (some junk) = .ok () string := by
      refine (CharBuffer.write_of_le hfit).trans ?_
      rw [overwrite_nil]
    rw [hwrite]
    exact ⟨h, by rw [htext, List.append_nil]⟩
  · have hpos := List.length_pos_of_ne_nil hnil
    have hadd : sizeAdd string.size other.length = string.size + other.length :=
      sizeAdd_eq (by omega)
    obtain ⟨t, Z, heq, hleast, hcapacity, htsize, htp, hnew, hold⟩ :=
      stringResizeWithin_longer h (show string.size < string.size + other.length by omega)
        (by omega) junk
    rw [htext, List.append_assoc] at htp
    have hempty : t.p = a ++ ([] ++ (b ++ Z)) := htp
    have hmove := CharBuffer.move_expand_iff hcapacity hempty
      (show t.size = a.length + other.length + b.length by omega) (by rw [htsize]; exact hnew)
      (fun ha => hold (by rw [htext]; exact List.append_ne_nil_of_left_ne_nil ha _)) (Nat.zero_le _)
    rw [htsize, le_doubling_iff hleast, hlength] at hmove
    rw [stringInsertMem, if_pos hpos]
    dsimp only
    rw [hadd, heq, Outcome.andThen_ok, or_iff_right hnil]
    exact hmove

/-- Replacing a segment that lies in the text. -/
theorem replaces_iff_of_lt (h : string.IsString) (hmem : string.p.length + other.length < 2 ^ 63)
    {begin size : ℕ} (hcheck : begin + size < string.size) (junk : ℕ → UInt8) :
    Replaces string begin size other junk ↔ ReplaceFits string begin size other := by
  have hlength := h.length_text
  obtain rfl | ⟨rest, hrest⟩ := h.cases
  · exact absurd hcheck (Nat.not_lt_zero _)
  have hplength : string.p.length = string.size + (rest.length + 1) := by
    rw [hrest.p_eq, List.length_append, List.length_cons, hlength]
  obtain ⟨a, seg, b, htext, rfl, rfl⟩ : ∃ a seg b, string.text = a ++ (seg ++ b) ∧
      a.length = begin ∧ seg.length = size := by
    refine ⟨string.text.take begin, (string.text.drop begin).take size,
      (string.text.drop begin).drop size, ?_, ?_, ?_⟩
    · rw [List.take_append_drop, List.take_append_drop]
    · rw [List.length_take]
      omega
    · rw [List.length_take, List.length_drop]
      omega
  rw [htext, List.length_append, List.length_append] at hlength
  have hp : string.p = a ++ (seg ++ (b ++ 0 :: rest)) := by
    rw [hrest.p_eq, htext, List.append_assoc, List.append_assoc]
  -- the sizes the code computes do not wrap
  have hmoved : sizeSub string.size seg.length = a.length + b.length := by
    rw [sizeSub_eq (by omega) (by omega)]
    omega
  have hnewSize : sizeSub (sizeAdd string.size other.length) seg.length
      = a.length + other.length + b.length := by
    rw [sizeAdd_eq (by omega), sizeSub_eq (by omega) (by omega)]
    omega
  rw [Replaces, ReplaceFits, htext, List.take_left, ← List.drop_drop, List.drop_left, List.drop_left,
    stringReplaceMem, sizeAdd_eq (by omega), if_pos hcheck]
  dsimp only
  rw [hmoved, hnewSize, and_iff_right hcheck]
  -- a shorter text moves the rest to the front, a longer one to the back
  obtain hshort | hequal | hlong := lt_trichotomy other.length seg.length
  · have hmove := CharBuffer.move_shrink_iff hrest.capacity_eq hp hshort
    have hsum : a.length + seg.length + b.length = string.size := by omega
    rw [hsum, ← hrest.capacity_eq] at hmove
    rw [if_pos (Nat.ne_of_lt hshort), if_neg (Nat.not_lt_of_lt hshort), Outcome.andThen_ok]
    simp only [if_pos hshort, Outcome.andThen_assoc, Outcome.andThen_ok]
    rw [hmove, or_iff_right (Nat.ne_of_lt hshort), and_iff_right hshort,
      or_iff_left fun hlong => absurd hlong.1 (Nat.not_lt_of_lt hshort)]
  · refine iff_of_true ?_ (.inl hequal)
    have hwrite := CharBuffer.write_segment hrest.capacity_eq hp hequal.symm (by omega)
    rw [if_neg (not_not_intro hequal), Outcome.andThen_ok]
    exact hwrite
  · have hlonger : string.size < a.length + other.length + b.length := by omega
    obtain ⟨t, Z, heq, hleast, hcapacity, htsize, htp, hnew, hold⟩ :=
      stringResizeWithin_longer h hlonger (by omega) junk
    rw [htext, List.append_assoc, List.append_assoc] at htp
    have hmove := CharBuffer.move_expand_iff hcapacity htp htsize (by rw [htsize]; exact hnew)
      (fun ha => hold (by rw [htext]; exact List.append_ne_nil_of_left_ne_nil ha _))
      (Nat.le_of_lt hlong)
    have hsum : a.length + other.length + b.length = string.size + other.length - seg.length := by
      omega
    rw [htsize, le_doubling_iff hleast, hsum] at hmove
    rw [hsum] at heq
    rw [if_pos (Nat.ne_of_gt hlong), if_pos hlong, hsum, heq, Outcome.andThen_ok]
    simp only [if_neg (Nat.not_lt_of_lt hlong), Outcome.andThen_assoc, Outcome.andThen_ok]
    rw [hmove, or_iff_right (Nat.ne_of_gt hlong), and_iff_right hlong,
      or_iff_right fun hshort => absurd hshort.1 (Nat.not_lt_of_lt hlong)]

/-- A least doubling is below twice what is needed. -/
theorem doubling_lt {capacity needed m : ℕ} (h : IsLeast (doublings capacity needed) m)
    (hcapacity : capacity < 2 ^ 63) (hneeded : needed ≤ 2 ^ 63) (hpos : 0 < needed) :
    m < 2 ^ 64 := by
  obtain ⟨⟨-, k, rfl⟩, hleast⟩ := h
  cases k with
  | zero =>
    rw [Nat.pow_zero, Nat.mul_one]
    split_ifs <;> omega
  | succ k =>
    by_contra hlt
    rw [Nat.pow_succ, ← Nat.mul_assoc] at hlt hleast
    have hsmaller := hleast ⟨show needed ≤ (if capacity = 0 then 1 else capacity) * 2 ^ k by omega,
      k, rfl⟩
    omega

/-- A segment whose end wraps around passes the check, and lies outside every block. -/
theorem not_replaces_of_wraps (h : string.IsString) (hmem : string.p.length + other.length < 2 ^ 63)
    {begin size : ℕ} (hbegin : begin < 2 ^ 64) (hsize : size < 2 ^ 64)
    (hcheck : sizeAdd begin size < string.size) (hwraps : string.size ≤ begin + size)
    (junk : ℕ → UInt8) : ¬ Replaces string begin size other junk := by
  have hlength := h.length_text
  rw [CharBuffer.text, List.length_take] at hlength
  have hfar : 2 ^ 64 ≤ begin + size := by
    by_contra hlt
    rw [sizeAdd_eq (by omega)] at hcheck
    omega
  rw [Replaces, stringReplaceMem, if_pos hcheck]
  dsimp only
  -- whatever block the string has then, the segment ends behind it
  have hmove : ∀ (t : CharBuffer) (n : ℕ), t.p.length < 2 ^ 64 →
      t.move (begin + other.length) (begin + size) n = .error .outside t := by
    intro t n ht
    exact if_neg (by omega)
  by_cases hequal : other.length = size
  · rw [if_neg (not_not_intro hequal), Outcome.andThen_ok, CharBuffer.write, if_neg (by omega)]
    exact id
  · rw [if_pos hequal]
    by_cases hlong : other.length > size
    · have hnewSize : sizeSub (sizeAdd string.size other.length) size
          = string.size + other.length - size := by
        rw [sizeAdd_eq (by omega), sizeSub_eq (by omega) (by omega)]
      obtain ⟨t, Z, heq, hleast, -⟩ := stringResizeWithin_longer h
        (show string.size < string.size + other.length - size by omega) (by omega) junk
      have ht := doubling_lt hleast (by rw [← h.length_p]; omega) (by omega) (by omega)
      rw [if_pos hlong, hnewSize, heq, Outcome.andThen_ok, hmove t _ ht]
      exact id
    · rw [if_neg hlong, Outcome.andThen_ok, hmove string _ (by omega)]
      exact id

/-- Where inserting and replacing do what they are for. The string and the text lie in memory
together. -/
theorem segments_iff (h : string.IsString) (hmem : string.p.length + other.length < 2 ^ 63)
    (junk : ℕ → UInt8) :
    (∀ begin ≤ string.size,
      (Inserts string begin other junk ↔ InsertFits string begin other)) ∧
    ∀ begin size, begin < 2 ^ 64 → size < 2 ^ 64 → sizeAdd begin size < string.size →
      (Replaces string begin size other junk ↔ ReplaceFits string begin size other) := by
  constructor
  · intro begin hbegin
    exact inserts_iff h hmem hbegin junk
  · intro begin size hbegin hsize hcheck
    by_cases hin : begin + size < string.size
    · exact replaces_iff_of_lt h hmem hin junk
    · refine iff_of_false ?_ fun hfits => hin hfits.1
      exact not_replaces_of_wraps h hmem hbegin hsize hcheck (Nat.not_lt.mp hin) junk

end

/-- In a block of eight bytes. -/
theorem segments_iff_abc :
    (∀ begin ≤ 3, (Inserts ⟨[97, 98, 99, 0, 7, 7, 7, 7], 3, 8⟩ begin [100] (fun _ => 7) ↔
      InsertFits ⟨[97, 98, 99, 0, 7, 7, 7, 7], 3, 8⟩ begin [100])) ∧
    ∀ begin size, begin < 2 ^ 64 → size < 2 ^ 64 → sizeAdd begin size < 3 →
      (Replaces ⟨[97, 98, 99, 0, 7, 7, 7, 7], 3, 8⟩ begin size [100] (fun _ => 7) ↔
        ReplaceFits ⟨[97, 98, 99, 0, 7, 7, 7, 7], 3, 8⟩ begin size [100]) :=
  segments_iff (show CharBuffer.IsString ⟨[97, 98, 99, 0, 7, 7, 7, 7], 3, 8⟩ from
    ⟨rfl, .inr ⟨by decide, rfl⟩⟩) (by decide) _

/-- Inserting four bytes behind the second of three writes over the end of a block of eight. -/
theorem insert_outside :
    ¬ ∀ (string : CharBuffer) (other : List UInt8) (junk : ℕ → UInt8), string.IsString →
      string.p.length + other.length < 2 ^ 63 →
      (∀ begin ≤ string.size, Inserts string begin other junk) ∧
      ∀ begin size, begin < 2 ^ 64 → size < 2 ^ 64 → sizeAdd begin size < string.size →
        Replaces string begin size other junk := by
  intro h
  have hinsert := (h ⟨[97, 98, 99, 0], 3, 4⟩ [100, 101, 102, 103] (fun _ => 7)
    ⟨rfl, .inr ⟨by decide, rfl⟩⟩ (by decide)).1 2 (by decide)
  exact hinsert

end Twinkleshine
