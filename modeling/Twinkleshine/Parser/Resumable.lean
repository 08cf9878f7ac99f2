import Twinkleshine.Parser.Safety

/-!
# Parsers that are resumed

The HTTP and Spartan parsers count the bytes of a request one by one up to its content, which they
process in bulk. `ContentParser` collects what the two have in common. Up to the content the progress
of such a parser depends on the bytes counted alone, so it does not matter how they are cut into
parts.
-/

namespace Twinkleshine

open Library

/-- A parser of requests with a content. -/
structure ContentParser (initial : ParserState) (step : Lookup → ParserStep) : Prop where
  initial_ne_begin : initial ≠ .begin
  initial_ne_content : initial ≠ .waitContent
  initial_ne_end : initial ≠ .end
  /-- Its lookups are in range. -/
  safe : ∀ {lookup : Lookup} {w : List UInt8}, Reads lookup w →
    (step lookup).Safe (fun _ => True) w
  /-- It depends on the bytes of the stream alone. -/
  congr : ∀ {lookup lookup' : Lookup} {w : List UInt8}, Reads lookup w → Reads lookup' w →
    ∀ {s : Progress}, s.Within w.length → ∀ (available : ℕ) (c : UInt8),
      step lookup available c s = step lookup' available c s
  /-- A byte that is counted is not of the content, and is counted wherever the part ends. -/
  next : ∀ {lookup : Lookup} {n : ℕ} {c : UInt8} {s t : Progress},
    step lookup n c s = .ok .next t → s.parser.state ≠ .waitContent ∧ t.parser.state ≠ .begin ∧
      ∀ available, step lookup available c s = .ok .next t
  /-- The content is processed in bulk. -/
  content : ∀ {lookup : Lookup} {n : ℕ} {c : UInt8} {s : Progress},
    s.parser.state = .waitContent → step lookup n c s = .ok .halt (parseContent n s)
  /-- A part is left in the content, or for nothing. -/
  halt : ∀ {lookup : Lookup} {n : ℕ} {c : UInt8} {s t : Progress},
    step lookup n c s = .ok .halt t → s.parser.state = .waitContent ∨ t = s

/-! ## The two parsers -/

theorem parserParseHttpStep_available {lookup : Lookup} {n : ℕ} {c : UInt8} {s : Progress}
    (h : s.parser.state ≠ .waitContent) (available : ℕ) :
    parserParseHttpStep lookup available c s = parserParseHttpStep lookup n c s := by
  cases hstate : s.parser.state with
  | waitContent => exact absurd hstate h
  | _ => simp only [parserParseHttpStep, hstate]

theorem parserParseSpartanStep_available {lookup : Lookup} {n : ℕ} {c : UInt8} {s : Progress}
    (h : s.parser.state ≠ .waitContent) (available : ℕ) :
    parserParseSpartanStep lookup available c s = parserParseSpartanStep lookup n c s := by
  cases hstate : s.parser.state with
  | waitContent => exact absurd hstate h
  | _ => simp only [parserParseSpartanStep, hstate]

theorem contentOrEnd_ne_begin {parser : Parser} : parser.contentOrEnd ≠ .begin := by
  rw [Parser.contentOrEnd]
  split_ifs <;> decide

theorem parserParseSpartanLength_state {lookup : Lookup} {s t : Progress} {u : Unit}
    (h : parserParseSpartanLength lookup s = .ok u t) : t.parser.state = s.parser.state := by
  rw [parserParseSpartanLength] at h
  split at h
  · cases h
  split at h
  · cases h
  dsimp only at h
  split at h <;> cases h
  rfl

/-- No character leads back to `RPS_BEGIN`. -/
theorem parserParseHttpStep_ne_begin {lookup : Lookup} {n : ℕ} {c : UInt8} {s t : Progress}
    (h : parserParseHttpStep lookup n c s = .ok .next t) : t.parser.state ≠ .begin := by
  cases hstate : s.parser.state with
  | waitValueEnd =>
    simp only [parserParseHttpStep, hstate] at h
    split at h
    · cases h
      simp
    split at h
    · obtain ⟨_, u, -, h⟩ := Outcome.andThen_eq_ok.mp h
      split_ifs at h <;> cases h <;> simp
    · cases h
  | «end» | begin =>
    simp only [parserParseHttpStep, hstate] at h
    split at h <;> cases h
  | waitContent => simp [parserParseHttpStep, hstate] at h
  | _ =>
    simp only [parserParseHttpStep, hstate] at h
    split_ifs at h <;> cases h <;> simp [hstate, contentOrEnd_ne_begin]

theorem parserParseSpartanStep_ne_begin {lookup : Lookup} {n : ℕ} {c : UInt8} {s t : Progress}
    (h : parserParseSpartanStep lookup n c s = .ok .next t) : t.parser.state ≠ .begin := by
  cases hstate : s.parser.state with
  | waitNameEnd =>
    simp only [parserParseSpartanStep, hstate] at h
    split at h
    · cases h
      simp
    split at h
    · obtain ⟨_, u, hu, h⟩ := Outcome.andThen_eq_ok.mp h
      have hsame := parserParseSpartanLength_state hu
      split_ifs at h <;> cases h
      · simp
      · simp [contentOrEnd_ne_begin]
      · simp [hsame, hstate]
    · cases h
  | _ =>
    simp only [parserParseSpartanStep, hstate] at h
    try split_ifs at h
    all_goals cases h
    all_goals simp [hstate, contentOrEnd_ne_begin]

theorem parserParseHttpStep_content : ContentParser .waitMethodBegin parserParseHttpStep where
  initial_ne_begin := by decide
  initial_ne_content := by decide
  initial_ne_end := by decide
  safe := parserParseHttpStep_safe
  congr h h' _ hs := parserParseHttpStep_congr h h' hs
  next {lookup n c s t} h := by
    have hstate : s.parser.state ≠ .waitContent := fun hstate => by
      simp [parserParseHttpStep, hstate] at h
    exact ⟨hstate, parserParseHttpStep_ne_begin h,
      fun available => (parserParseHttpStep_available hstate available).trans h⟩
  content hstate := by simp only [parserParseHttpStep, hstate]
  halt {lookup n c s t} h := by
    cases hstate : s.parser.state with
    | waitContent => exact .inl rfl
    | waitValueEnd =>
      simp only [parserParseHttpStep, hstate] at h
      split at h
      · cases h
      split at h
      · obtain ⟨_, u, -, h⟩ := Outcome.andThen_eq_ok.mp h
        split_ifs at h <;> cases h
      · cases h
    | «end» | begin =>
      simp only [parserParseHttpStep, hstate] at h
      split at h
      · cases h
        exact .inr rfl
      · cases h
    | _ =>
      simp only [parserParseHttpStep, hstate] at h
      split_ifs at h
      all_goals cases h

theorem parserParseSpartanStep_content : ContentParser .waitMethodEnd parserParseSpartanStep where
  initial_ne_begin := by decide
  initial_ne_content := by decide
  initial_ne_end := by decide
  safe := parserParseSpartanStep_safe
  congr h h' _ hs := parserParseSpartanStep_congr h h' hs
  next {lookup n c s t} h := by
    have hstate : s.parser.state ≠ .waitContent := fun hstate => by
      simp [parserParseSpartanStep, hstate] at h
    exact ⟨hstate, parserParseSpartanStep_ne_begin h,
      fun available => (parserParseSpartanStep_available hstate available).trans h⟩
  content hstate := by simp only [parserParseSpartanStep, hstate]
  halt {lookup n c s t} h := by
    cases hstate : s.parser.state with
    | waitContent => exact .inl rfl
    | waitNameEnd =>
      simp only [parserParseSpartanStep, hstate] at h
      split at h
      · cases h
      split at h
      · obtain ⟨_, u, -, h⟩ := Outcome.andThen_eq_ok.mp h
        split_ifs at h <;> cases h
      · cases h
    | _ =>
      simp only [parserParseSpartanStep, hstate] at h
      try split_ifs at h
      all_goals cases h

/-- `parser_parse` calls a parser of requests with a content. -/
structure ContentFunction (acceptingSocket : ℕ) (initial : ParserState) (step : Lookup → ParserStep) :
    Prop extends ContentParser initial step where
  function_eq : ∀ lookup, parserFunction acceptingSocket lookup = parsePart initial (step lookup)

/-- The requests of the protocol can have a content. -/
def HasContent (acceptingSocket : ℕ) : Prop :=
  acceptingSocketProtocol acceptingSocket = .http ∨ acceptingSocketProtocol acceptingSocket = .https ∨
    acceptingSocketProtocol acceptingSocket = .spartan

theorem HasContent.contentFunction {acceptingSocket : ℕ} (h : HasContent acceptingSocket) :
    ∃ initial step, ContentFunction acceptingSocket initial step := by
  obtain h | h | h := h
  · exact ⟨_, _, parserParseHttpStep_content, fun _ => by simp only [parserFunction, h]; rfl⟩
  · exact ⟨_, _, parserParseHttpStep_content, fun _ => by simp only [parserFunction, h]; rfl⟩
  · exact ⟨_, _, parserParseSpartanStep_content, fun _ => by simp only [parserFunction, h]; rfl⟩

/-! ## Counting bytes -/

theorem Progress.begin_of_ne {s : Progress} (h : s.parser.state ≠ .begin) (initial : ParserState) :
    s.begin initial = s := if_neg h

theorem Progress.begin_ne {initial : ParserState} (h : initial ≠ .begin) (s : Progress) :
    (s.begin initial).parser.state ≠ .begin := by
  rw [Progress.begin]
  split_ifs with hs
  · exact h
  · exact hs

section

variable {initial : ParserState} {step : Lookup → ParserStep} {lookup lookup' : Lookup}
  {w cs : List UInt8} {s t : Progress}

/-- What the bytes counted do to a progress: each is counted once, and the locations stay inside. -/
theorem ContentParser.consumes_within (hp : ContentParser initial step) (h : Reads lookup w)
    (hcs : Consumes (step lookup) Progress.bump cs s t)
    (hfit : s.request.streamSize + cs.length ≤ w.length) (hs : s.Within s.request.streamSize)
    (hbegin : s.parser.state ≠ .begin) :
    t.request.streamSize = s.request.streamSize + cs.length ∧ t.Within t.request.streamSize ∧
      t.parser.state ≠ .begin := by
  induction hcs with
  | nil s => exact ⟨rfl, hs, hbegin⟩
  | @cons c cs s u t head tail ih =>
    rw [List.length_cons] at hfit ⊢
    obtain ⟨hcount, hwithin, -⟩ := (hp.safe h 1 c s (by omega) (by omega) hs trivial).of_eq_ok
      (head 1)
    have hsize : u.bump.request.streamSize = s.request.streamSize + 1 := by
      rw [Progress.bump_streamSize, hcount]
    obtain ⟨ht, hin, hne⟩ := ih (by omega) (by rw [hsize]; exact ⟨hwithin.method, hwithin.resource,
      hwithin.protocol, hwithin.user, hwithin.currentName, hwithin.currentValue⟩)
      (hp.next (head 1)).2.1
    exact ⟨by omega, hin, hne⟩

/-- The same bytes are counted whoever looks them up. -/
theorem ContentParser.consumes_congr (hp : ContentParser initial step) (h : Reads lookup w)
    (h' : Reads lookup' w) (hcs : Consumes (step lookup) Progress.bump cs s t)
    (hfit : s.request.streamSize + cs.length ≤ w.length) (hs : s.Within s.request.streamSize) :
    Consumes (step lookup') Progress.bump cs s t :=
  hcs.congr (PartInv (fun _ => True) (s.request.streamSize + cs.length))
    (fun _ c u hu => ⟨fun available => hp.congr h h' (hu.within.mono (by have := hu.fits; omega))
      available c, fun _ hv => ((hp.safe h).partInv hfit hu).of_eq_ok hv⟩)
    ⟨le_refl _, hs, trivial⟩

/-- No byte is counted in the content. -/
theorem ContentParser.not_content_of_consumes (hp : ContentParser initial step) {c : UInt8}
    (hcs : Consumes (step lookup) Progress.bump (c :: cs) s t) : s.parser.state ≠ .waitContent := by
  cases hcs with
  | cons head tail => exact (hp.next (head 1)).1

end

end Twinkleshine
