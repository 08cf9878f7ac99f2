import Twinkleshine.Parser.Lookup

/-!
# No parser looks up what is not there

`Progress.Within s n` says that every location of a request lies in the first `n` bytes of the
stream. Each step of each parser keeps it with `n` the number of bytes counted so far, so every
lookup is in range (`ParserStep.Safe`).
-/

namespace Twinkleshine

open Library

/-- No location ends behind the first `n` bytes. Only that of the method may, by one byte, while the
resource is read: the Finger parser moves the offset of the method there. -/
structure Progress.Within (s : Progress) (n : ℕ) : Prop where
  method : s.request.method.limit ≤ n + if s.parser.state = .waitResourceEnd then 1 else 0
  resource : s.request.resource.limit ≤ n
  protocol : s.request.protocol.limit ≤ n
  user : s.request.user.limit ≤ n
  currentName : s.parser.currentName.limit ≤ n
  currentValue : s.parser.currentValue.limit ≤ n

theorem Progress.Within.mono {s : Progress} {n m : ℕ} (h : s.Within n) (hnm : n ≤ m) :
    s.Within m :=
  ⟨h.method.trans (by omega), h.resource.trans hnm, h.protocol.trans hnm, h.user.trans hnm,
    h.currentName.trans hnm, h.currentValue.trans hnm⟩

theorem Progress.zero_within (n : ℕ) : Progress.zero.Within n := by
  constructor <;> simp [Progress.zero, Request.zero, Parser.zero, ValueLocation.zero,
    ValueLocation.limit]

/-- The errors a parser function raises on its own: the grammar error and the promised size. -/
def IsParserError (e : ExError) : Prop :=
  e.eef = .sendShutdownLog .requestInvalid ∨ e.eef = .sendShutdownLog .maxRequestContentSize

/-- What a step keeps, when the bytes counted so far and those of the part lie in `w`; `shape` is
what the parser needs besides. -/
def ParserStep.Safe (step : ParserStep) (shape : Progress → Prop) (w : List UInt8) : Prop :=
  ∀ (available : ℕ) (c : UInt8) (s : Progress), 0 < available →
    s.request.streamSize + available ≤ w.length → s.Within s.request.streamSize → shape s →
    (step available c s).Ensures
      (fun flow t =>
        match flow with
        | .next => t.request.streamSize = s.request.streamSize ∧
            t.Within (s.request.streamSize + 1) ∧ shape t.bump
        | .halt => t.request.streamSize ≤ s.request.streamSize + available ∧
            t.Within t.request.streamSize ∧ shape t)
      (fun e _ => IsParserError e)

/-! ## Header fields -/

/-- What a header field can change. -/
structure NameValueChange (s t : Progress) : Prop where
  parser : ∃ remainingContent, t.parser = { s.parser with remainingContent }
  streamSize : t.request.streamSize = s.request.streamSize
  method : t.request.method = s.request.method
  resource : t.request.resource = s.request.resource
  protocol : t.request.protocol = s.request.protocol
  user : t.request.user = s.request.user ∨ t.request.user = s.parser.currentValue

theorem NameValueChange.rfl {s : Progress} : NameValueChange s s :=
  ⟨⟨_, Eq.refl _⟩, Eq.refl _, Eq.refl _, Eq.refl _, Eq.refl _, .inl (Eq.refl _)⟩

/-- `parser_parse_http_name_value` ends, and fails only with an error of the request. -/
theorem parserParseHttpNameValue_ensures {lookup : Lookup} {w : List UInt8} {s : Progress}
    (h : Reads lookup w) (hname : s.parser.currentName.limit ≤ w.length)
    (hvalue : s.parser.currentValue.limit ≤ w.length) :
    (parserParseHttpNameValue lookup s).Ensures (fun _ t => NameValueChange s t)
      (fun e _ => IsParserError e) := by
  obtain ⟨name, hn, -⟩ := h _ hname
  obtain ⟨value, hv, -⟩ := h _ hvalue
  have hkeep : connectionKeepAlive (valueSize value + 2) value = _ :=
    connectionKeepAlive_eq (by rw [valueSize_eq])
  simp only [parserParseHttpNameValue, hn, hv, hkeep]
  split_ifs
  · cases valueToUint (valueTrim value) with
    | none => exact .inl rfl
    | some remainingContent =>
      simp only
      split_ifs
      · exact ⟨⟨_, rfl⟩, rfl, rfl, rfl, rfl, .inl rfl⟩
      · exact .inr rfl
  · cases hasKeepAlive value.bytes with
    | true => exact ⟨⟨_, rfl⟩, rfl, rfl, rfl, rfl, .inl rfl⟩
    | false => exact .rfl
  · exact ⟨⟨_, rfl⟩, rfl, rfl, rfl, rfl, .inr rfl⟩
  · exact ⟨⟨_, rfl⟩, rfl, rfl, rfl, rfl, .inl rfl⟩
  · exact .rfl

theorem parserParseSpartanLength_ensures {lookup : Lookup} {w : List UInt8} {s : Progress}
    (h : Reads lookup w) (hvalue : s.parser.currentValue.limit ≤ w.length) :
    (parserParseSpartanLength lookup s).Ensures (fun _ t => NameValueChange s t)
      (fun e _ => IsParserError e) := by
  obtain ⟨value, hv, -⟩ := h _ hvalue
  simp only [parserParseSpartanLength, hv]
  cases valueToUint value with
  | none => exact .inl rfl
  | some remainingContent =>
    simp only
    split_ifs
    · exact ⟨⟨_, rfl⟩, rfl, rfl, rfl, rfl, .inl rfl⟩
    · exact .inr rfl

/-- After a header field the locations still lie in the bytes counted. -/
theorem NameValueChange.within {s t : Progress} {n : ℕ} (h : NameValueChange s t)
    (hs : s.Within n) : t.Within n := by
  obtain ⟨⟨remainingContent, hparser⟩, -, hmethod, hresource, hprotocol, huser⟩ := h
  constructor
  · rw [hmethod, hparser]; exact hs.method
  · rw [hresource]; exact hs.resource
  · rw [hprotocol]; exact hs.protocol
  · obtain huser | huser := huser
    · rw [huser]; exact hs.user
    · rw [huser]; exact hs.currentValue
  · rw [hparser]; exact hs.currentName
  · rw [hparser]; exact hs.currentValue

/-- The bulk of the content leaves the locations alone. -/
theorem parseContent_within (available : ℕ) {s : Progress} (hs : s.Within s.request.streamSize)
    (hstate : s.parser.state = .waitContent) :
    (parseContent available s).request.streamSize ≤ s.request.streamSize + available ∧
      (parseContent available s).Within (parseContent available s).request.streamSize := by
  have hmethod := hs.method
  simp only [hstate, reduceCtorEq, if_false, Nat.add_zero] at hmethod
  simp only [parseContent]
  split_ifs with henough
  · exact ⟨Nat.add_le_add_left henough _, hmethod.trans (by simp), hs.resource.trans (by simp),
      hs.protocol.trans (by simp), hs.user.trans (by simp), hs.currentName.trans (by simp),
      hs.currentValue.trans (by simp)⟩
  · exact ⟨le_refl _, hmethod.trans (by simp; omega), hs.resource.trans (by simp),
      hs.protocol.trans (by simp), hs.user.trans (by simp), hs.currentName.trans (by simp),
      hs.currentValue.trans (by simp)⟩

/-! ## Steps -/

/-- The locations of a progress, one by one. -/
theorem Progress.within_iff {s : Progress} {n : ℕ} : s.Within n ↔
    (s.request.method.offset + s.request.method.size
        ≤ n + if s.parser.state = .waitResourceEnd then 1 else 0) ∧
      s.request.resource.offset + s.request.resource.size ≤ n ∧
      s.request.protocol.offset + s.request.protocol.size ≤ n ∧
      s.request.user.offset + s.request.user.size ≤ n ∧
      s.parser.currentName.offset + s.parser.currentName.size ≤ n ∧
      s.parser.currentValue.offset + s.parser.currentValue.size ≤ n :=
  ⟨fun h => ⟨h.method, h.resource, h.protocol, h.user, h.currentName, h.currentValue⟩,
    fun ⟨h1, h2, h3, h4, h5, h6⟩ => ⟨h1, h2, h3, h4, h5, h6⟩⟩

theorem contentOrEnd_ne {parser : Parser} : parser.contentOrEnd ≠ .waitResourceEnd := by
  rw [Parser.contentOrEnd]
  split_ifs <;> decide

/-- A step that goes on changes no location but one, which ends with the character at the latest. -/
theorem parserParseHttpStep_safe {lookup : Lookup} {w : List UInt8} (h : Reads lookup w) :
    (parserParseHttpStep lookup).Safe (fun _ => True) w := by
  intro available c s hpos hfit hs _
  cases hstate : s.parser.state with
  | waitContent =>
    obtain ⟨hsize, hwithin⟩ := parseContent_within available hs hstate
    simp only [parserParseHttpStep, hstate]
    exact ⟨hsize, hwithin, trivial⟩
  | waitValueEnd =>
    have hname : s.parser.currentName.limit ≤ w.length := hs.currentName.trans (by omega)
    have hvalue : s.parser.currentValue.limit ≤ w.length := hs.currentValue.trans (by omega)
    simp only [parserParseHttpStep, hstate]
    split
    · simp only [Progress.within_iff, hstate, reduceCtorEq, if_false] at hs
      refine ⟨rfl, ?_, trivial⟩
      simp only [Progress.within_iff, reduceCtorEq, if_false]
      omega
    split
    · -- the header field is complete
      refine (parserParseHttpNameValue_ensures h hname hvalue).andThen (fun _ t ht => ?_)
        fun _ _ he => he
      have hwithin := (ht.within hs).mono (Nat.le_add_right _ 1)
      have hstate' : t.parser.state ≠ .waitResourceEnd := by
        obtain ⟨remainingContent, hparser⟩ := ht.parser
        rw [hparser, hstate]
        decide
      have hsize := ht.streamSize
      simp only [Progress.within_iff, hstate', if_false] at hwithin
      split_ifs <;>
      · refine ⟨hsize, ?_, trivial⟩
        simpa only [Progress.within_iff, reduceCtorEq, if_false] using hwithin
    · exact .inl rfl
  | «end» | begin =>
    simp only [parserParseHttpStep, hstate]
    split_ifs
    · exact ⟨Nat.le_add_right _ _, hs, trivial⟩
    · exact .inl rfl
  | _ =>
    simp only [Progress.within_iff, hstate, reduceCtorEq, if_false, if_true] at hs
    simp only [parserParseHttpStep, hstate]
    split_ifs <;> first
      | exact .inl rfl
      | (refine ⟨rfl, ?_, trivial⟩
         simp only [Progress.within_iff, hstate, contentOrEnd_ne, reduceCtorEq, if_false, if_true]
         omega)

theorem parserParseSpartanStep_safe {lookup : Lookup} {w : List UInt8} (h : Reads lookup w) :
    (parserParseSpartanStep lookup).Safe (fun _ => True) w := by
  intro available c s hpos hfit hs _
  cases hstate : s.parser.state with
  | waitContent =>
    obtain ⟨hsize, hwithin⟩ := parseContent_within available hs hstate
    simp only [parserParseSpartanStep, hstate]
    exact ⟨hsize, hwithin, trivial⟩
  | waitNameEnd =>
    have hvalue : s.parser.currentValue.limit ≤ w.length := hs.currentValue.trans (by omega)
    simp only [parserParseSpartanStep, hstate]
    split
    · simp only [Progress.within_iff, hstate, reduceCtorEq, if_false] at hs
      refine ⟨rfl, ?_, trivial⟩
      simp only [Progress.within_iff, reduceCtorEq, if_false]
      omega
    split
    · -- the length is complete
      refine (parserParseSpartanLength_ensures h hvalue).andThen (fun _ t ht => ?_)
        fun _ _ he => he
      have hwithin := (ht.within hs).mono (Nat.le_add_right _ 1)
      have hstate' : t.parser.state ≠ .waitResourceEnd := by
        obtain ⟨remainingContent, hparser⟩ := ht.parser
        rw [hparser, hstate]
        decide
      have hsize := ht.streamSize
      simp only [Progress.within_iff, hstate', if_false] at hwithin
      split_ifs <;>
      · refine ⟨hsize, ?_, trivial⟩
        simpa only [Progress.within_iff, contentOrEnd_ne, hstate', reduceCtorEq, if_false]
          using hwithin
    · exact .inl rfl
  | _ =>
    simp only [Progress.within_iff, hstate, reduceCtorEq, if_false, if_true] at hs
    simp only [parserParseSpartanStep, hstate]
    try split_ifs
    all_goals first
      | exact .inl rfl
      | (refine ⟨rfl, ?_, trivial⟩
         simp only [Progress.within_iff, hstate, contentOrEnd_ne, reduceCtorEq, if_false, if_true]
         omega)

theorem parserParseGopherStep_safe (w : List UInt8) :
    parserParseGopherStep.Safe (fun _ => True) w := by
  intro available c s hpos hfit hs _
  cases hstate : s.parser.state with
  | _ =>
    simp only [Progress.within_iff, hstate, reduceCtorEq, if_false, if_true] at hs
    simp only [parserParseGopherStep, hstate]
    try split_ifs
    all_goals first
      | exact .inl rfl
      | (refine ⟨rfl, ?_, trivial⟩
         simp only [Progress.within_iff, hstate, reduceCtorEq, if_false, if_true]
         omega)

/-- The Finger parser knows how much of `/W` it has seen. -/
def FingerShape (s : Progress) : Prop :=
  (s.parser.state = .waitMethodEnd → s.request.method.size = 1) ∧
    (s.parser.state = .waitResourceBegin → s.request.method.size = 2)

theorem parserParseFingerStep_safe (w : List UInt8) : parserParseFingerStep.Safe FingerShape w := by
  intro available c s hpos hfit hs hshape
  cases hstate : s.parser.state with
  | _ =>
    simp only [Progress.within_iff, hstate, reduceCtorEq, if_false, if_true] at hs
    simp only [FingerShape, hstate, reduceCtorEq, false_implies, true_implies] at hshape
    simp only [parserParseFingerStep, hstate]
    try split_ifs
    all_goals first
      | exact .inl rfl
      | (refine ⟨rfl, ?_, ?_⟩
         · simp only [Progress.within_iff, hstate, reduceCtorEq, if_false, if_true]
           omega
         · simp only [FingerShape, Progress.bump, hstate, reduceCtorEq, false_implies,
             true_implies, hshape, and_self])

/-- The parsers of the Gemini kind have no method before the protocol is complete. -/
def GeminiShape (s : Progress) : Prop :=
  s.parser.state = .begin ∨ s.parser.state = .waitProtocolEnd → s.request.method.size = 0

theorem parserParseGeminiLikeStep_safe (protocol w : List UInt8) :
    (parserParseGeminiLikeStep protocol).Safe GeminiShape w := by
  intro available c s hpos hfit hs hshape
  cases hstate : s.parser.state with
  | _ =>
    simp only [Progress.within_iff, hstate, reduceCtorEq, if_false, if_true] at hs
    simp only [GeminiShape, hstate, reduceCtorEq, or_self, or_true, or_false, false_implies,
      true_implies] at hshape
    simp only [parserParseGeminiLikeStep, hstate]
    try split_ifs
    all_goals first
      | exact .inl rfl
      | (refine ⟨rfl, ?_, ?_⟩
         · simp only [Progress.within_iff, hstate, reduceCtorEq, if_false, if_true]
           omega
         · simp only [GeminiShape, Progress.bump, hstate, reduceCtorEq, or_self, or_true,
             false_implies, true_implies, hshape])

/-! ## Parts and calls -/

theorem Progress.begin_streamSize (initial : ParserState) (s : Progress) :
    (s.begin initial).request.streamSize = s.request.streamSize := by
  rw [Progress.begin]
  split_ifs <;> rfl

theorem Progress.Within.begin {s : Progress} {n : ℕ} (h : s.Within n) (initial : ParserState) :
    (s.begin initial).Within n := by
  rw [Progress.begin]
  split_ifs with hstate
  · simp only [Progress.within_iff, hstate, reduceCtorEq, if_false] at h ⊢
    omega
  · exact h

/-- What holds before each character of a part: the `n` characters that are left lie in the stream. -/
structure PartInv (shape : Progress → Prop) (limit n : ℕ) (s : Progress) : Prop where
  fits : s.request.streamSize + n ≤ limit
  within : s.Within s.request.streamSize
  shape : shape s

theorem PartInv.begin {shape : Progress → Prop} {limit n : ℕ} {s : Progress} {initial : ParserState}
    (h : PartInv shape limit n s) (hbegin : ∀ s, shape s → shape (s.begin initial)) :
    PartInv shape limit n (s.begin initial) := by
  refine ⟨?_, ?_, hbegin s h.shape⟩
  · rw [s.begin_streamSize initial]
    exact h.fits
  · rw [s.begin_streamSize initial]
    exact h.within.begin initial

/-- A character that is counted keeps the invariant, and one that is not ends the part with it. -/
theorem ParserStep.Safe.partInv {step : ParserStep} {shape : Progress → Prop} {w : List UInt8}
    {limit n : ℕ} {c : UInt8} {s : Progress} (h : step.Safe shape w) (hlimit : limit ≤ w.length)
    (hs : PartInv shape limit (n + 1) s) :
    (step (n + 1) c s).Ensures
      (fun flow t => match flow with
        | .next => PartInv shape limit n t.bump
        | .halt => PartInv shape limit 0 t)
      (fun e _ => IsParserError e) := by
  have hfits := hs.fits
  refine (h (n + 1) c s (Nat.succ_pos n) (by omega) hs.within hs.shape).mono (fun flow t ht => ?_)
    fun _ _ he => he
  cases flow with
  | next =>
    obtain ⟨hcount, hwithin, hshape⟩ := ht
    refine ⟨by rw [Progress.bump_streamSize, hcount]; omega, ?_, hshape⟩
    rw [Progress.bump_streamSize, hcount]
    exact ⟨hwithin.method, hwithin.resource, hwithin.protocol, hwithin.user, hwithin.currentName,
      hwithin.currentValue⟩
  | halt =>
    obtain ⟨hcount, hwithin, hshape⟩ := ht
    exact ⟨by omega, hwithin, hshape⟩

/-- A part of a stream is parsed inside the stream. -/
theorem parsePart_ensures {initial : ParserState} {step : ParserStep} {shape : Progress → Prop}
    {w part : List UInt8} {s : Progress} (hstep : step.Safe shape w)
    (hbegin : ∀ s, shape s → shape (s.begin initial))
    (hfit : s.request.streamSize + part.length ≤ w.length) (hs : s.Within s.request.streamSize)
    (hshape : shape s) :
    (parsePart initial step part s).Ensures
      (fun _ t => PartInv shape (s.request.streamSize + part.length) 0 t)
      (fun e _ => IsParserError e) :=
  scan_ensures (PartInv shape (s.request.streamSize + part.length))
    (fun _ _ _ ht => hstep.partInv hfit ht) (fun _ ht => ht) part
    (PartInv.begin ⟨le_refl _, hs, hshape⟩ hbegin)

/-- Two parsers whose characters do the same wherever the locations lie in the stream parse a part
alike. -/
theorem parsePart_congr {initial : ParserState} {step step' : ParserStep} {shape : Progress → Prop}
    {w part : List UInt8} {s : Progress} (hstep : step.Safe shape w)
    (heq : ∀ (n : ℕ) (c : UInt8) (s : Progress), s.Within w.length →
      step (n + 1) c s = step' (n + 1) c s)
    (hbegin : ∀ s, shape s → shape (s.begin initial))
    (hfit : s.request.streamSize + part.length ≤ w.length) (hs : s.Within s.request.streamSize)
    (hshape : shape s) : parsePart initial step part s = parsePart initial step' part s := by
  refine scan_congr (PartInv shape (s.request.streamSize + part.length)) (fun n c t ht => ⟨?_, ?_⟩)
    part (PartInv.begin ⟨le_refl _, hs, hshape⟩ hbegin)
  · exact heq n c t (ht.within.mono (by have := ht.fits; omega))
  · exact fun u hu => (hstep.partInv hfit ht).of_eq_ok hu

theorem FingerShape.begin {s : Progress} (h : FingerShape s) :
    FingerShape (s.begin .waitMethodBegin) := by
  rw [Progress.begin]
  split_ifs
  · exact ⟨fun hstate => ParserState.noConfusion hstate, fun hstate => ParserState.noConfusion hstate⟩
  · exact h

theorem GeminiShape.begin {s : Progress} (h : GeminiShape s) :
    GeminiShape (s.begin .waitProtocolEnd) := by
  rw [Progress.begin]
  split_ifs with hstate
  · exact fun _ => h (.inl hstate)
  · exact h

/-- What the parser of an accepting socket knows besides the locations. -/
def ParserShape (acceptingSocket : ℕ) : Progress → Prop :=
  match acceptingSocketProtocol acceptingSocket with
  | .finger => FingerShape
  | .gemini | .text | .guppy => GeminiShape
  | _ => fun _ => True

theorem Progress.zero_shape (acceptingSocket : ℕ) : ParserShape acceptingSocket Progress.zero := by
  rw [ParserShape]
  cases acceptingSocketProtocol acceptingSocket with
  | finger => exact ⟨by decide, by decide⟩
  | gemini | text | guppy => exact fun _ => rfl
  | _ => trivial

/-- Every parser function parses a part of a stream inside the stream. -/
theorem parserFunction_ensures {acceptingSocket : ℕ} {lookup : Lookup} {w part : List UInt8}
    {s : Progress} (h : Reads lookup w) (hfit : s.request.streamSize + part.length ≤ w.length)
    (hs : s.Within s.request.streamSize) (hshape : ParserShape acceptingSocket s) :
    (parserFunction acceptingSocket lookup part s).Ensures
      (fun _ t => PartInv (ParserShape acceptingSocket) (s.request.streamSize + part.length) 0 t)
      (fun e _ => IsParserError e) := by
  simp only [ParserShape, parserFunction] at hshape ⊢
  cases hprotocol : acceptingSocketProtocol acceptingSocket with
  | http | https =>
    exact parsePart_ensures (parserParseHttpStep_safe h) (fun _ _ => trivial) hfit hs trivial
  | gopher | nex =>
    exact parsePart_ensures (parserParseGopherStep_safe w) (fun _ _ => trivial) hfit hs trivial
  | spartan =>
    exact parsePart_ensures (parserParseSpartanStep_safe h) (fun _ _ => trivial) hfit hs trivial
  | finger =>
    rw [hprotocol] at hshape
    exact parsePart_ensures (parserParseFingerStep_safe w) (fun _ => FingerShape.begin) hfit hs
      hshape
  | gemini | text | guppy =>
    rw [hprotocol] at hshape
    exact parsePart_ensures (parserParseGeminiLikeStep_safe _ w) (fun _ => GeminiShape.begin) hfit
      hs hshape

theorem parserParseHttpStep_congr {lookup lookup' : Lookup} {w : List UInt8} (h : Reads lookup w)
    (h' : Reads lookup' w) {s : Progress} (hs : s.Within w.length) (available : ℕ) (c : UInt8) :
    parserParseHttpStep lookup available c s = parserParseHttpStep lookup' available c s := by
  simp only [parserParseHttpStep,
    parserParseHttpNameValue_congr h h' hs.currentName hs.currentValue]

theorem parserParseSpartanStep_congr {lookup lookup' : Lookup} {w : List UInt8}
    (h : Reads lookup w) (h' : Reads lookup' w) {s : Progress} (hs : s.Within w.length)
    (available : ℕ) (c : UInt8) :
    parserParseSpartanStep lookup available c s = parserParseSpartanStep lookup' available c s := by
  simp only [parserParseSpartanStep, parserParseSpartanLength_congr h h' hs.currentValue]

/-- What a parser function does depends on the bytes of the stream alone: it never looks at a
location outside. -/
theorem parserFunction_congr {acceptingSocket : ℕ} {lookup lookup' : Lookup} {w part : List UInt8}
    {s : Progress} (h : Reads lookup w) (h' : Reads lookup' w)
    (hfit : s.request.streamSize + part.length ≤ w.length) (hs : s.Within s.request.streamSize) :
    parserFunction acceptingSocket lookup part s = parserFunction acceptingSocket lookup' part s := by
  simp only [parserFunction]
  cases acceptingSocketProtocol acceptingSocket with
  | http | https =>
    exact parsePart_congr (parserParseHttpStep_safe h)
      (fun n c t ht => parserParseHttpStep_congr h h' ht (n + 1) c) (fun _ _ => trivial) hfit hs
      trivial
  | spartan =>
    exact parsePart_congr (parserParseSpartanStep_safe h)
      (fun n c t ht => parserParseSpartanStep_congr h h' ht (n + 1) c) (fun _ _ => trivial) hfit hs
      trivial
  | gopher | nex | finger | gemini | text | guppy => rfl

/-- What holds between two calls of `parser_parse` on a request stream of `size` bytes. -/
structure ParseInv (acceptingSocket size : ℕ) (s : Progress) : Prop where
  streamSize_le : s.request.streamSize ≤ size
  streamSize_le_max : s.request.streamSize ≤ maxRequestSize
  within : s.Within s.request.streamSize
  shape : ParserShape acceptingSocket s

theorem Progress.zero_parseInv (acceptingSocket size : ℕ) :
    ParseInv acceptingSocket size Progress.zero :=
  ⟨Nat.zero_le _, Nat.zero_le _, zero_within _, zero_shape _⟩

/-- More bytes do no harm. -/
theorem ParseInv.mono {acceptingSocket size size' : ℕ} {s : Progress}
    (h : ParseInv acceptingSocket size s) (hsize : size ≤ size') :
    ParseInv acceptingSocket size' s :=
  ⟨h.streamSize_le.trans hsize, h.streamSize_le_max, h.within, h.shape⟩

/-- The bytes handed to the parser function: those not parsed of the first `MAX_REQUEST_SIZE`. -/
theorem notParsedLocation_limit {s : Progress} {size : ℕ} (hsize : size < 2 ^ 64)
    (hs : s.request.streamSize ≤ size) (hmax : s.request.streamSize ≤ maxRequestSize) :
    notParsedLocation s size
      = ⟨s.request.streamSize, min size maxRequestSize - s.request.streamSize⟩ := by
  have hmaximum : maxRequestSize = 1048576 := rfl
  rw [notParsedLocation, ValueLocation.mk.injEq]
  refine ⟨rfl, ?_⟩
  split_ifs with hfull
  · rw [sizeSub_eq hmax (by omega), Nat.min_eq_right hfull]
  · rw [sizeSub_eq hs hsize, Nat.min_eq_left (by omega)]

/-- `parser_parse` keeps its invariant; it fails only with an error of the request, and never with
one that ends the server. -/
theorem parserParseWith_ensures {acceptingSocket : ℕ} {lookup : Lookup} {w : List UInt8}
    {s : Progress} (h : Reads lookup w) (hsize : w.length < 2 ^ 64)
    (hs : ParseInv acceptingSocket w.length s) :
    (parserParseWith acceptingSocket lookup w.length s).Ensures
      (fun _ t => ParseInv acceptingSocket w.length t ∧
        (maxRequestSize ≤ w.length → t.parser.state = .end))
      (fun e _ => IsParserError e ∨ e.eef = .sendShutdownLog .maxRequestHeaderSize) := by
  set front := w.take maxRequestSize with hfront
  have hlength : front.length = min w.length maxRequestSize := by
    rw [hfront, List.length_take, Nat.min_comm]
  have hreads : Reads lookup front := h.of_front (List.take_prefix _ _)
  have hlocation := notParsedLocation_limit hsize hs.streamSize_le hs.streamSize_le_max
  have hle : s.request.streamSize ≤ front.length := by
    rw [hlength]
    exact le_min hs.streamSize_le hs.streamSize_le_max
  have hlimit : (notParsedLocation s w.length).limit ≤ front.length := by
    simp only [hlocation, ValueLocation.limit]
    omega
  obtain ⟨notParsed, hlookup, hbytes⟩ := hreads _ hlimit
  have hparts : notParsed.part0.length + notParsed.part1.length
      = front.length - s.request.streamSize := by
    rw [← List.length_append, ← ConstantValue.bytes, hbytes, length_segment hlimit, hlocation,
      hlength]
  rw [parserParseWith, hlookup]
  refine (parserFunction_ensures hreads (by omega) hs.within hs.shape).andThen (fun _ t ht => ?_)
    fun _ _ he => .inl he
  have htfits := ht.fits
  refine (parserFunction_ensures hreads (by omega) ht.within ht.shape).andThen (fun _ u hu => ?_)
    fun _ _ he => .inl he
  have hufits := hu.fits
  have hinv : ParseInv acceptingSocket w.length u := ⟨by omega, by omega, hu.within, hu.shape⟩
  split_ifs with hfull hend
  · exact ⟨hinv, fun _ => hend⟩
  · exact .inr rfl
  · exact ⟨hinv, fun hge => absurd hge hfull⟩

/-- `parser_parse` depends on the bytes of the stream and on how they are handed out alone. -/
theorem parserParseWith_congr {acceptingSocket : ℕ} {lookup lookup' : Lookup} {w : List UInt8}
    {s : Progress} (h : Reads lookup w) (h' : Reads lookup' w) (hsize : w.length < 2 ^ 64)
    (hs : ParseInv acceptingSocket w.length s)
    (hnotParsed : lookup (notParsedLocation s w.length) = lookup' (notParsedLocation s w.length)) :
    parserParseWith acceptingSocket lookup w.length s
      = parserParseWith acceptingSocket lookup' w.length s := by
  have hlocation := notParsedLocation_limit hsize hs.streamSize_le hs.streamSize_le_max
  have hlimit : (notParsedLocation s w.length).limit ≤ w.length := by
    have := hs.streamSize_le
    simp only [hlocation, ValueLocation.limit]
    omega
  obtain ⟨notParsed, hlookup, hbytes⟩ := h _ hlimit
  have hparts : notParsed.part0.length + notParsed.part1.length
      ≤ w.length - s.request.streamSize := by
    rw [← List.length_append, ← ConstantValue.bytes, hbytes, length_segment hlimit, hlocation]
    simp only
    omega
  have hle := hs.streamSize_le
  rw [parserParseWith, parserParseWith, ← hnotParsed, hlookup]
  simp only
  rw [parserFunction_congr h h' (by omega) hs.within]
  have hfirst := parserFunction_ensures h'
    (show s.request.streamSize + notParsed.part0.length ≤ w.length by omega) hs.within hs.shape
  cases hr : parserFunction acceptingSocket lookup' notParsed.part0 s with
  | ok _ t =>
    have ht := hfirst.of_eq_ok hr
    have htfits := ht.fits
    simp only [Outcome.andThen_ok]
    rw [parserFunction_congr h h' (by omega) ht.within]
  | error e t => rfl
  | hang => rfl

end Twinkleshine
