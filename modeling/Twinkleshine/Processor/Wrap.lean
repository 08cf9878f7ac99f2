import Twinkleshine.Constants
import Mathlib.Data.List.DropRight
import Mathlib.Data.List.Forall2

/-!
# Wrapping lines

Reference: `wrap` in `source/processor/nex_processor.c`.

A paragraph is wrapped in place: a countdown tells when the line is full, and then the last space that
was seen in it becomes a newline. The countdown starts anew with what has been read of the new line
already.
-/

namespace Twinkleshine

/-! ## The loop -/

/-- `line_width` -/
def lineWidth : ℕ := 70

/-- The variables of `wrap`. -/
structure WrapState where
  text : List UInt8
  symbolsTillWantNewline : ℕ
  lastSpace : Option ℕ
deriving DecidableEq, Repr

/-- One round of the loop, at `p`. -/
def wrapStep (s : WrapState) (p : ℕ) : WrapState :=
  let c := s.text.getD p 0
  let s := if c = 32 then { s with lastSpace := some p } else s
  -- forced break line
  if c = 10 then { s with symbolsTillWantNewline := lineWidth, lastSpace := none }
  -- don't want to break line
  else if s.symbolsTillWantNewline > 0 then
    { s with symbolsTillWantNewline := s.symbolsTillWantNewline - 1 }
  else
    match s.lastSpace with
    -- want and can break line
    | some lastSpace =>
      { text := s.text.set lastSpace 10
        symbolsTillWantNewline := sizeSub lineWidth (sizeSub p lastSpace)
        lastSpace := none }
    -- want break line but can't
    | none => s

/-- The loop, up to `n`. -/
def wrapTo (text : List UInt8) (n : ℕ) : WrapState :=
  (List.range n).foldl wrapStep ⟨text, lineWidth, none⟩

/-- `wrap` -/
def wrap (text : List UInt8) : List UInt8 := (wrapTo text text.length).text

/-! ## Lines and words -/

/-- A byte that was kept, or a space that became a newline. -/
def KeptOrBroken (a b : UInt8) : Prop := b = a ∨ a = 32 ∧ b = 10

/-- What follows the last newline of a text. -/
def lastLine (text : List UInt8) : List UInt8 := text.rtakeWhile (· != 10)

/-- The word a text begins with. -/
def firstWord (text : List UInt8) : List UInt8 := text.takeWhile fun c => c != 32 && c != 10

/-- The line that ends with `before` has no space if it is too long. -/
def FitsOrUnbreakable (before : List UInt8) : Prop :=
  lineWidth < (lastLine before).length → 32 ∉ lastLine before

/-- Behind `before` the text was broken: the next word did not fit into the line. -/
def BreakNecessary (before after : List UInt8) : Prop :=
  lineWidth < (lastLine before).length + 1 + (firstWord after).length

variable {text original done line rest : List UInt8} {c : UInt8} {s : WrapState}

theorem lastLine_append (hdone : lastLine done = []) (hline : 10 ∉ line) :
    lastLine (done ++ line) = line := by
  have hall : ∀ c ∈ line.reverse, (c != 10) = true := by
    intro c hc
    rw [bne_iff_ne]
    rintro rfl
    exact hline (List.mem_reverse.mp hc)
  rw [lastLine, List.rtakeWhile, List.reverse_eq_nil_iff] at hdone
  rw [lastLine, List.rtakeWhile, List.reverse_append, List.takeWhile_append_of_pos hall, hdone,
    List.append_nil, List.reverse_reverse]

theorem lastLine_newline (before : List UInt8) : lastLine (before ++ [10]) = [] :=
  List.rtakeWhile_concat_neg _ _ _ (by decide)

/-- A word is not shorter than what is known to be free of spaces and newlines. -/
theorem length_le_firstWord {word : List UInt8} (hspace : 32 ∉ word) (hnewline : 10 ∉ word)
    (rest : List UInt8) : word.length ≤ (firstWord (word ++ rest)).length := by
  have hall : ∀ c ∈ word, (c != 32 && c != 10) = true := by
    intro c hc
    rw [Bool.and_eq_true, bne_iff_ne, bne_iff_ne]
    constructor
    · rintro rfl
      exact hspace hc
    · rintro rfl
      exact hnewline hc
  rw [firstWord, List.takeWhile_append_of_pos hall, List.length_append]
  omega

/-- Breaking lines does not change which word comes next. -/
theorem firstWord_kept {new old : List UInt8} (h : List.Forall₂ KeptOrBroken old new) :
    firstWord new = firstWord old := by
  induction h with
  | nil => rfl
  | @cons a b old new hab h ih =>
    rw [firstWord, firstWord, List.takeWhile_cons, List.takeWhile_cons]
    rcases hab with rfl | ⟨rfl, rfl⟩
    · rw [← firstWord, ← firstWord, ih]
    · rfl

/-- A newline of a text that ends with one is that one, or is in front of the last line. -/
theorem split_newline {before after : List UInt8} (hline : 10 ∉ line)
    (h : before ++ 10 :: after = done ++ line ++ [10]) :
    before = done ++ line ∧ after = [] ∨ ∃ after', done = before ++ 10 :: after' := by
  rcases List.eq_nil_or_concat after with rfl | ⟨after', last, rfl⟩
  · exact .inl ⟨(List.append_inj' h rfl).1, rfl⟩
  · rw [List.concat_eq_append, ← List.cons_append, ← List.append_assoc] at h
    have hfront := (List.append_inj' h rfl).1
    rcases List.append_eq_append_iff.mp hfront with ⟨middle, hdone, htail⟩ | ⟨middle, -, htail⟩
    · rcases middle with _ | ⟨c, middle⟩
      · rw [List.nil_append] at htail
        exact absurd (htail ▸ List.mem_cons_self) hline
      · obtain ⟨rfl, -⟩ := List.cons.inj htail
        exact .inr ⟨middle, hdone⟩
    · exact absurd (htail ▸ List.mem_append_right _ List.mem_cons_self) hline

/-! ## What holds in the loop -/

/-- The text `text` has been wrapped up to `rest`: the finished lines are `done`, made of `original`, and
`line` is what has been read of the current line. -/
structure Wrapping (text original done line rest : List UInt8) (s : WrapState) : Prop where
  source : text = original ++ line ++ rest
  wrapped : s.text = done ++ line ++ rest
  kept : List.Forall₂ KeptOrBroken original done
  finished : lastLine done = []
  newline : 10 ∉ line
  countdown : s.symbolsTillWantNewline = lineWidth - line.length
  space : s.lastSpace = none ∧ 32 ∉ line ∨
    ∃ front back, line = front ++ 32 :: back ∧ 32 ∉ back ∧
      s.lastSpace = some (done.length + front.length)
  fits : lineWidth < line.length → 32 ∉ line
  lines : ∀ before after, done = before ++ 10 :: after → FitsOrUnbreakable before
  necessary : ∀ before after, done = before ++ 10 :: after → text[before.length]? = some 32 →
    BreakNecessary before (text.drop (before.length + 1))

/-- A line is finished, at a newline or at a space that becomes one. -/
theorem Wrapping.finish (h : Wrapping text original done line rest s) {front back : List UInt8}
    (hread : line ++ rest = front ++ c :: back) (hc : c = 10 ∨ c = 32) (hfront : 10 ∉ front)
    (hfits : lineWidth < front.length → 32 ∉ front)
    (hbroken : c = 32 → lineWidth < front.length + 1 + (firstWord back).length) :
    text = original ++ front ++ [c] ++ back ∧
      List.Forall₂ KeptOrBroken (original ++ front ++ [c]) (done ++ front ++ [10]) ∧
      lastLine (done ++ front ++ [10]) = [] ∧
      ∀ before after, done ++ front ++ [10] = before ++ 10 :: after → FitsOrUnbreakable before ∧
        (text[before.length]? = some 32 → BreakNecessary before (text.drop (before.length + 1))) := by
  have hsource : text = original ++ front ++ [c] ++ back := by
    rw [h.source, List.append_assoc, hread]
    simp only [List.append_assoc, List.singleton_append]
  have hlength : original.length = done.length := h.kept.length_eq
  have hline : lastLine (done ++ front) = front := lastLine_append h.finished hfront
  refine ⟨hsource, ?_, lastLine_newline _, ?_⟩
  · refine List.rel_append (List.rel_append h.kept (List.forall₂_same.mpr fun _ _ => .inl rfl)) (.cons ?_ .nil)
    exact hc.imp (fun hc => hc.symm) fun hc => ⟨hc, rfl⟩
  · intro before after hsplit
    rcases split_newline hfront hsplit.symm with ⟨rfl, rfl⟩ | ⟨after', hdone⟩
    · have hat : text[(done ++ front).length]? = some c := by
        rw [hsource, List.append_assoc, List.append_assoc, ← List.append_assoc,
          List.getElem?_append_right (by simp only [List.length_append]; omega), List.length_append,
          List.length_append, hlength, Nat.sub_self]
        rfl
      have hdrop : text.drop ((done ++ front).length + 1) = back := by
        rw [hsource, List.drop_left' (by simp only [List.length_append, List.length_singleton]; omega)]
      rw [FitsOrUnbreakable, BreakNecessary, hline, hat, hdrop]
      exact ⟨hfits, fun hspace => hbroken (Option.some.inj hspace)⟩
    · exact ⟨h.lines before after' hdone, h.necessary before after' hdone⟩

/-- What a round reads. -/
theorem Wrapping.getD (h : Wrapping text original done line (c :: rest) s) :
    s.text.getD (done.length + line.length) 0 = c := by
  rw [h.wrapped, List.getD_eq_getElem?_getD, ← List.length_append,
    List.getElem?_append_right (Nat.le_refl _), Nat.sub_self]
  rfl

/-- The text already ends its line here. -/
theorem Wrapping.newlineStep (h : Wrapping text original done line (10 :: rest) s) :
    Wrapping text (original ++ line ++ [10]) (done ++ line ++ [10]) [] rest
      (wrapStep s (done.length + line.length)) := by
  obtain ⟨hsource, hkept, hfinished, hlines⟩ :=
    h.finish rfl (.inl rfl) h.newline h.fits fun hc => absurd hc (by decide)
  have hstep : wrapStep s (done.length + line.length) = ⟨s.text, lineWidth, none⟩ := by
    rw [wrapStep, h.getD]
    rfl
  rw [hstep]
  refine ⟨?_, ?_, hkept, hfinished, List.not_mem_nil, rfl, .inl ⟨rfl, List.not_mem_nil⟩,
    fun hlong => absurd hlong (Nat.not_lt_zero _), fun before after h => (hlines before after h).1,
    fun before after h => (hlines before after h).2⟩
  · rw [List.append_nil]
    exact hsource
  · rw [List.append_nil, List.append_assoc]
    exact h.wrapped

/-- The last space of the current line, when the next byte is added to it. -/
theorem Wrapping.space_read (h : Wrapping text original done line (c :: rest) s) :
    (if c = 32 then some (done.length + line.length) else s.lastSpace) = none ∧ 32 ∉ line ++ [c] ∨
      ∃ front back, line ++ [c] = front ++ 32 :: back ∧ 32 ∉ back ∧
        (if c = 32 then some (done.length + line.length) else s.lastSpace)
          = some (done.length + front.length) := by
  by_cases hc : c = 32
  · subst hc
    exact .inr ⟨line, [], rfl, List.not_mem_nil, if_pos rfl⟩
  · have hnot : 32 ∉ [c] := fun hmem => hc (List.mem_singleton.mp hmem).symm
    rw [if_neg hc]
    rcases h.space with ⟨hnone, hfree⟩ | ⟨front, back, rfl, hback, hsome⟩
    · exact .inl ⟨hnone, fun hmem => (List.mem_append.mp hmem).elim hfree hnot⟩
    · refine .inr ⟨front, back ++ [c], ?_, fun hmem => (List.mem_append.mp hmem).elim hback hnot, hsome⟩
      rw [List.append_assoc, List.cons_append]

/-- The subtraction of pointers and of the countdown does not wrap. -/
theorem countdown_restart {a b : ℕ} (h : b ≤ lineWidth) :
    sizeSub lineWidth (sizeSub (a + b) a) = lineWidth - b := by
  have hwidth : lineWidth = 70 := rfl
  have hback : sizeSub (a + b) a = b := by
    simp only [sizeSub, sizeModulus]
    omega
  rw [hback]
  simp only [sizeSub, sizeModulus]
  omega

/-- A round that reads a byte other than a newline. -/
theorem wrapStep_byte {k : ℕ} (hread : s.text.getD k 0 = c) (hc : c ≠ 10) :
    wrapStep s k = if s.symbolsTillWantNewline > 0 then
        { s with
          symbolsTillWantNewline := s.symbolsTillWantNewline - 1
          lastSpace := if c = 32 then some k else s.lastSpace }
      else
        match (if c = 32 then some k else s.lastSpace) with
        | some lastSpace =>
          { text := s.text.set lastSpace 10
            symbolsTillWantNewline := sizeSub lineWidth (sizeSub k lastSpace)
            lastSpace := none }
        | none => { s with lastSpace := none } := by
  rw [wrapStep, hread, if_neg hc]
  by_cases hspace : c = 32
  · rw [if_pos hspace, if_pos hspace]
  · rw [if_neg hspace, if_neg hspace]
    obtain ⟨text, symbols, lastSpace⟩ := s
    cases lastSpace <;> rfl

/-- The current line with one byte more has no newline in it. -/
theorem Wrapping.newline_read (h : Wrapping text original done line (c :: rest) s) (hc : c ≠ 10) :
    10 ∉ line ++ [c] := fun hmem =>
  (List.mem_append.mp hmem).elim h.newline fun hmem => hc (List.mem_singleton.mp hmem).symm

/-- The line is not broken in this round. -/
theorem Wrapping.goOn (h : Wrapping text original done line (c :: rest) s) (hc : c ≠ 10) {t : WrapState}
    (htext : t.text = s.text) (hsymbols : t.symbolsTillWantNewline = lineWidth - (line ++ [c]).length)
    (hspace : t.lastSpace = if c = 32 then some (done.length + line.length) else s.lastSpace)
    (hfits : lineWidth < (line ++ [c]).length → 32 ∉ line ++ [c]) :
    Wrapping text original done (line ++ [c]) rest t := by
  refine ⟨?_, ?_, h.kept, h.finished, h.newline_read hc, hsymbols, ?_, hfits, h.lines, h.necessary⟩
  · rw [h.source]
    simp only [List.append_assoc, List.singleton_append]
  · rw [htext, h.wrapped]
    simp only [List.append_assoc, List.singleton_append]
  · rw [hspace]
    exact h.space_read

/-- What stands in front of the last space fits, and what stands behind it is not too long: a line that is too
long has no space, so this one is too long by its last byte, or the space is last. -/
theorem Wrapping.fits_around (h : Wrapping text original done line (c :: rest) s) {front back : List UInt8}
    (hsplit : line ++ [c] = front ++ 32 :: back) :
    back.length ≤ lineWidth ∧ (lineWidth < front.length → 32 ∉ front) := by
  have hwidth : lineWidth = 70 := rfl
  have hsizes := congrArg List.length hsplit
  rcases List.eq_nil_or_concat back with rfl | ⟨back', last, rfl⟩
  · rw [← List.concat_eq_append, List.concat_eq_append] at hsplit
    obtain ⟨hfront, -⟩ := List.append_inj' hsplit rfl
    rw [← hfront]
    exact ⟨Nat.zero_le _, h.fits⟩
  · rw [List.concat_eq_append, ← List.cons_append, ← List.append_assoc] at hsplit
    obtain ⟨hline, -⟩ := List.append_inj' hsplit rfl
    have hshort : ¬ lineWidth < line.length := fun hlong =>
      h.fits hlong (hline ▸ List.mem_append_right _ List.mem_cons_self)
    simp only [List.concat_eq_append, List.length_append, List.length_cons, List.length_nil] at hsizes ⊢
    exact ⟨by omega, fun hlong => absurd hlong (by omega)⟩

/-- The line is full, and is broken at its last space. -/
theorem Wrapping.breakStep (h : Wrapping text original done line (c :: rest) s) (hc : c ≠ 10)
    (hfull : s.symbolsTillWantNewline = 0) {front back : List UInt8}
    (hsplit : line ++ [c] = front ++ 32 :: back) (hback : 32 ∉ back) :
    Wrapping text (original ++ front ++ [32]) (done ++ front ++ [10]) back rest
      ⟨s.text.set (done.length + front.length) 10,
        sizeSub lineWidth (sizeSub (done.length + line.length) (done.length + front.length)), none⟩ := by
  have hwidth : lineWidth = 70 := rfl
  have hcount := h.countdown
  have hsizes : line.length = front.length + back.length := by
    have hlengths := congrArg List.length hsplit
    simp only [List.length_append, List.length_cons, List.length_nil] at hlengths
    omega
  obtain ⟨hshort, hfits⟩ := h.fits_around hsplit
  have hread := h.newline_read hc
  have hnewlines : 10 ∉ front ∧ 10 ∉ back := by
    rw [hsplit] at hread
    exact ⟨fun hmem => hread (List.mem_append_left _ hmem),
      fun hmem => hread (List.mem_append_right _ (List.mem_cons_of_mem _ hmem))⟩
  have hparts : line ++ c :: rest = front ++ 32 :: (back ++ rest) := by
    rw [← List.singleton_append, ← List.append_assoc, hsplit]
    simp only [List.append_assoc, List.cons_append]
  have hword := length_le_firstWord hback hnewlines.2 rest
  -- the line ends at the space, since the word behind it does not fit
  obtain ⟨hsource, hkept, hfinished, hlines⟩ :=
    h.finish hparts (.inr rfl) hnewlines.1 hfits fun _ => by omega
  refine ⟨?_, ?_, hkept, hfinished, hnewlines.2, ?_, .inl ⟨rfl, hback⟩, fun hlong => absurd hlong (by omega),
    fun before after h => (hlines before after h).1, fun before after h => (hlines before after h).2⟩
  · rw [hsource]
    simp only [List.append_assoc]
  · rw [h.wrapped, List.append_assoc, hparts]
    simp only [List.append_assoc, List.cons_append, List.nil_append]
    rw [← List.append_assoc, ← List.length_append,
      List.set_append_right _ _ (Nat.le_refl _), Nat.sub_self, List.set_cons_zero, List.append_assoc]
  · rw [hsizes, ← Nat.add_assoc, countdown_restart hshort]

/-- A byte that does not end the line is added to it, unless the line is full and has a space: then the
line is broken there. -/
theorem Wrapping.byteStep (h : Wrapping text original done line (c :: rest) s) (hc : c ≠ 10) :
    ∃ original' done' line', Wrapping text original' done' line' rest
      (wrapStep s (done.length + line.length)) := by
  have hcount := h.countdown
  have hlength : (line ++ [c]).length = line.length + 1 := List.length_append
  rw [wrapStep_byte h.getD hc]
  by_cases hroom : s.symbolsTillWantNewline > 0
  · -- there is room for the byte
    rw [if_pos hroom]
    refine ⟨_, _, _, h.goOn hc rfl ?_ rfl fun hlong => ?_⟩
    · dsimp only
      omega
    · omega
  rw [if_neg hroom]
  rcases h.space_read with ⟨hnone, hfree⟩ | ⟨front, back, hsplit, hback, hsome⟩
  · -- there is no space to break the line at
    rw [hnone]
    refine ⟨_, _, _, h.goOn hc rfl ?_ hnone.symm fun _ => hfree⟩
    dsimp only
    omega
  · rw [hsome]
    exact ⟨_, _, _, h.breakStep hc (Nat.eq_zero_of_not_pos hroom) hsplit hback⟩

/-! ## The whole text -/

/-- After `n` rounds the text is wrapped up to there. -/
theorem wrapTo_wrapping (text : List UInt8) {n : ℕ} (hn : n ≤ text.length) :
    ∃ original done line, done.length + line.length = n ∧
      Wrapping text original done line (text.drop n) (wrapTo text n) := by
  induction n with
  | zero =>
    refine ⟨[], [], [], rfl, rfl, rfl, .nil, rfl, List.not_mem_nil, rfl,
      .inl ⟨rfl, List.not_mem_nil⟩, fun hlong => absurd hlong (Nat.not_lt_zero _), ?_, ?_⟩
    · intro before after h
      cases before <;> cases h
    · intro before after h
      cases before <;> cases h
  | succ n ih =>
    obtain ⟨original, done, line, hlength, h⟩ := ih (by omega)
    have hwhole := congrArg List.length h.source
    have hkept := h.kept.length_eq
    rw [List.drop_eq_getElem_cons (by omega)] at h
    have hnext : wrapTo text (n + 1) = wrapStep (wrapTo text n) (done.length + line.length) := by
      rw [wrapTo, wrapTo, List.range_succ, List.foldl_append, hlength]
      rfl
    rw [hnext]
    have hsize : ∀ original' done' line' t,
        Wrapping text original' done' line' (text.drop (n + 1)) t → done'.length + line'.length = n + 1 := by
      intro original' done' line' t h'
      have hsource := congrArg List.length h'.source
      have hkept' := h'.kept.length_eq
      simp only [List.length_append, List.length_drop] at hsource
      omega
    by_cases hc : text[n] = 10
    · rw [hc] at h
      exact ⟨_, _, _, hsize _ _ _ _ h.newlineStep, h.newlineStep⟩
    · obtain ⟨original', done', line', h'⟩ := h.byteStep hc
      exact ⟨original', done', line', hsize _ _ _ _ h', h'⟩

/-- Wrapping only turns spaces into newlines, leaves no space in a line that is too long, and breaks a
line only where the next word does not fit. -/
theorem wrap_spec (text : List UInt8) :
    (wrap text).length = text.length ∧ List.Forall₂ KeptOrBroken text (wrap text) ∧
      (∀ before after, wrap text = before ++ after → (after = [] ∨ after.head? = some 10) →
        FitsOrUnbreakable before) ∧
      ∀ before after, wrap text = before ++ 10 :: after → text[before.length]? = some 32 →
        BreakNecessary before after := by
  obtain ⟨original, done, line, -, h⟩ := wrapTo_wrapping text (Nat.le_refl _)
  rw [List.drop_length] at h
  have hwrap : wrap text = done ++ line := h.wrapped.trans (List.append_nil _)
  have hsource : text = original ++ line := h.source.trans (List.append_nil _)
  have hkept : List.Forall₂ KeptOrBroken text (wrap text) := by
    rw [hwrap]
    conv_lhs => rw [hsource]
    exact List.rel_append h.kept (List.forall₂_same.mpr fun _ _ => .inl rfl)
  -- the last line has no newline, so every one is among the lines that are done
  have hinside : ∀ before after, wrap text = before ++ 10 :: after →
      ∃ after', done = before ++ 10 :: after' := by
    intro before after hsplit
    rw [hwrap] at hsplit
    rcases List.append_eq_append_iff.mp hsplit with ⟨middle, -, htail⟩ | ⟨middle, hdone, htail⟩
    · exact absurd (htail ▸ List.mem_append_right _ List.mem_cons_self) h.newline
    · rcases middle with _ | ⟨c, middle⟩
      · rw [List.nil_append] at htail
        exact absurd (htail ▸ List.mem_cons_self) h.newline
      · obtain ⟨rfl, -⟩ := List.cons.inj htail
        exact ⟨middle, hdone⟩
  refine ⟨hkept.length_eq.symm, hkept, ?_, ?_⟩
  · rintro before after hsplit (rfl | hhead)
    · rw [List.append_nil] at hsplit
      rw [← hsplit, hwrap, FitsOrUnbreakable, lastLine_append h.finished h.newline]
      exact h.fits
    · obtain ⟨after', rfl⟩ := List.head?_eq_some_iff.mp hhead
      obtain ⟨after'', hdone⟩ := hinside before after' hsplit
      exact h.lines before after'' hdone
  · intro before after hsplit hspace
    obtain ⟨after', hdone⟩ := hinside before after hsplit
    have hafter : after = (wrap text).drop (before.length + 1) := by
      rw [hsplit, ← List.drop_drop, List.drop_left]
      rfl
    -- words are kept, so the word behind a break is the one of the text
    have hwords : firstWord after = firstWord (text.drop (before.length + 1)) := by
      rw [hafter]
      exact firstWord_kept (List.forall₂_drop _ hkept)
    rw [BreakNecessary, hwords]
    exact h.necessary before after' hdone hspace

example : wrap (ascii "short line") = ascii "short line" := by decide

end Twinkleshine
