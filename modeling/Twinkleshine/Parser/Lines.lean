import Twinkleshine.Parser.Accept
import Twinkleshine.Parser.Feed

/-!
# The languages of the protocols with one line

A request of Gopher, Nex, Gemini, Text and Guppy is one line, and so is one of Spartan that has no
content. This module says which lines their parsers accept, whatever pieces they arrive in, and which
fields of the line they find. Reference: `source/parser/gopher_parser.c`,
`source/parser/gemini_parser.c`, `source/parser/spartan_parser.c`.
-/

namespace Twinkleshine

open Library

/-! ## Characters -/

/-- Visible ASCII -/
def isVisible (c : UInt8) : Bool := 33 ≤ c && c ≤ 126

/-- A letter, a digit, a hyphen or a dot. -/
def isDomain (c : UInt8) : Bool :=
  (48 ≤ c && c ≤ 57) || (65 ≤ c && c ≤ 90) || (97 ≤ c && c ≤ 122) || c == 45 || c == 46

theorem isClass_resource (c : UInt8) : isClass cmResource c = isVisible c :=
  forall_byte (fun c => isClass cmResource c = isVisible c) (by decide +kernel) c

theorem isClass_domain (c : UInt8) : isClass cmDomain c = isDomain c :=
  forall_byte (fun c => isClass cmDomain c = isDomain c) (by decide +kernel) c

/-! ## Lines -/

/-- The fields of a line. -/
structure LineFields where
  method : List UInt8
  resource : List UInt8
  protocol : List UInt8
deriving DecidableEq, Repr

/-- A line of Gopher and Nex: a selector. -/
def GopherLine (w : List UInt8) (fields : LineFields) : Prop :=
  fields.method = [] ∧ fields.protocol = [] ∧ (∀ c ∈ fields.resource, c ≠ 9 ∧ c ≠ 13 ∧ c ≠ 10) ∧
    ∃ e ≠ LineEnd.cr, w = fields.resource ++ e.bytes

/-- A line of Gemini, Text and Guppy: the protocol, a host, and perhaps a path behind a slash. -/
def GeminiLine (protocol w : List UInt8) (fields : LineFields) : Prop :=
  fields.protocol = protocol ∧ (∀ c ∈ fields.method, isDomain c = true ∨ c = 58) ∧
    (fields.resource = [] ∨
      ∃ path, fields.resource = 47 :: path ∧ ∀ c ∈ path, isVisible c = true) ∧
    ∃ e ≠ LineEnd.cr, w = protocol ++ (fields.method ++ (fields.resource ++ e.bytes))

/-- A line of Spartan that promises no content is a host, a path and a zero, with spaces between
them. -/
structure SpartanSpelling (w : List UInt8) (fields : LineFields) (before after zeros : ℕ)
    (e : LineEnd) : Prop where
  protocol : fields.protocol = []
  method : ∀ c ∈ fields.method, isDomain c = true
  resource_ne : fields.resource ≠ []
  resource : ∀ c ∈ fields.resource, isVisible c = true
  before_pos : 0 < before
  after_pos : 0 < after
  zeros_pos : 0 < zeros
  lineEnd : e ≠ .cr
  line : w = fields.method ++ (List.replicate before 32 ++ (fields.resource ++
    (List.replicate after 32 ++ (List.replicate zeros 48 ++ e.bytes))))

def SpartanLine (w : List UInt8) (fields : LineFields) : Prop :=
  ∃ before after zeros e, SpartanSpelling w fields before after zeros e

/-- The lines a protocol accepts, with their fields. -/
def LineLanguage (acceptingSocket : ℕ) (w : List UInt8) (fields : LineFields) : Prop :=
  match acceptingSocketProtocol acceptingSocket with
  | .gopher | .nex => GopherLine w fields
  | .gemini => GeminiLine (ascii "gemini://") w fields
  | .text => GeminiLine (ascii "text://") w fields
  | .guppy => GeminiLine (ascii "guppy://") w fields
  | .spartan => SpartanLine w fields
  | .http | .https | .finger => False

/-- The requests of the protocol are lines. -/
def IsLineProtocol (acceptingSocket : ℕ) : Prop :=
  acceptingSocketProtocol acceptingSocket ∈
    [Protocol.gopher, .nex, .gemini, .text, .guppy, .spartan]

/-- The location selects exactly this word of the line. -/
def Selects (w : List UInt8) (location : ValueLocation) (word : List UInt8) : Prop :=
  location.limit ≤ w.length ∧ segment w location false = word

/-- The locations of the request select exactly the fields. -/
structure SelectsFields (w : List UInt8) (request : Request) (fields : LineFields) : Prop where
  method : Selects w request.method fields.method
  resource : Selects w request.resource fields.resource
  protocol : Selects w request.protocol fields.protocol

/-- The request has ended exactly behind the last byte of `w`; one of Spartan has promised no
content. -/
structure EndsLine (acceptingSocket : ℕ) (w : List UInt8) (s : Progress) : Prop where
  ends : s.parser.state = .end
  streamSize : s.request.streamSize = w.length
  noContent : acceptingSocketProtocol acceptingSocket = .spartan → s.parser.remainingContent = 0

theorem Selects.middle (before word after : List UInt8) :
    Selects (before ++ (word ++ after)) ⟨before.length, word.length⟩ word := by
  constructor
  · simp only [ValueLocation.limit, List.length_append]
    omega
  · rw [← List.append_assoc]
    exact segment_middle before word after

theorem Selects.nothing (w : List UInt8) : Selects w .zero [] :=
  ⟨Nat.zero_le _, rfl⟩

/-! ## Line ends -/

/-- What a parser makes of the end of the line. -/
def Progress.close (e : LineEnd) (s : Progress) : Progress :=
  match e with
  | .crlf => ({ s with parser.state := .end } : Progress).advance 2
  | .lf => ({ s with parser.toleratedLf := true, parser.state := .end } : Progress).advance 1
  | .cr => s

/-- A parser reads a line feed, and nothing else, behind the carriage return that ends the line, and
nothing behind the line. -/
structure ClosesLines (step : ParserStep) : Prop where
  lf : ∀ {s : Progress}, s.parser.state = .waitFinalLineLf → s.parser.remainingContent = 0 →
    ∀ available, step available 10 s = .ok .next { s with parser.state := .end }
  only : ∀ {n : ℕ} {c : UInt8} {s t : Progress}, s.parser.state = .waitFinalLineLf →
    step n c s = .ok .next t → c = 10
  ended : ∀ {n : ℕ} {c : UInt8} {s t : Progress}, s.parser.state = .end →
    step n c s ≠ .ok .next t

section

variable {step : ParserStep} {s t u : Progress} {cs : List UInt8}

/-- Nothing is counted behind the line. -/
theorem ClosesLines.nil_of_ended (h : ClosesLines step) (hs : s.parser.state = .end)
    (hcs : Consumes step Progress.bump cs s t) : cs = [] ∧ t = s := by
  cases hcs with
  | nil => exact ⟨rfl, rfl⟩
  | cons head tail => exact absurd (head 1) (h.ended hs)

/-- Where only a line end can follow, what is counted up to the end is a line end. -/
theorem ClosesLines.iff (h : ClosesLines step) (hs : s.parser.state ≠ .end)
    (hu : u.parser.remainingContent = 0)
    (hcr : ∀ available, step available 13 s = .ok .next { u with parser.state := .waitFinalLineLf })
    (hlf : ∀ available, step available 10 s
      = .ok .next { u with parser.toleratedLf := true, parser.state := .end })
    (hother : ∀ c ∈ cs.head?, c ≠ 13 → c ≠ 10 → ∀ v, step 1 c s ≠ .ok .next v)
    (ht : t.parser.state = .end) :
    Consumes step Progress.bump cs s t ↔ ∃ e ≠ LineEnd.cr, cs = e.bytes ∧ t = u.close e := by
  have hfinal := h.lf (s := ({ u with parser.state := .waitFinalLineLf } : Progress).bump) rfl hu
  constructor
  · intro hcs
    cases hcs with
    | nil => exact absurd ht hs
    | @cons c cs _ v _ head tail =>
      by_cases h13 : c = 13
      · subst h13
        obtain ⟨-, rfl⟩ := Outcome.ok.inj ((hcr 1).symm.trans (head 1))
        cases tail with
        | nil => exact absurd ht (by simp)
        | cons head tail =>
          obtain rfl := h.only rfl (head 1)
          obtain ⟨-, rfl⟩ := Outcome.ok.inj ((hfinal 1).symm.trans (head 1))
          obtain ⟨rfl, rfl⟩ := h.nil_of_ended rfl tail
          exact ⟨.crlf, by decide, rfl, rfl⟩
      · by_cases h10 : c = 10
        · subst h10
          obtain ⟨-, rfl⟩ := Outcome.ok.inj ((hlf 1).symm.trans (head 1))
          obtain ⟨rfl, rfl⟩ := h.nil_of_ended rfl tail
          exact ⟨.lf, by decide, rfl, rfl⟩
        · exact absurd (head 1) (hother c rfl h13 h10 v)
  · rintro ⟨e, he, rfl, rfl⟩
    cases e with
    | crlf => exact .cons hcr (.cons hfinal (.nil _))
    | lf => exact .cons hlf (.nil _)
    | cr => exact absurd rfl he

theorem Progress.close_fields (u : Progress) (e : LineEnd) :
    (u.close e).request.method = u.request.method ∧
      (u.close e).request.resource = u.request.resource ∧
      (u.close e).request.protocol = u.request.protocol ∧
      (u.close e).parser.remainingContent = u.parser.remainingContent := by
  cases e <;> exact ⟨rfl, rfl, rfl, rfl⟩

theorem Progress.close_state {e : LineEnd} (he : e ≠ .cr) : (u.close e).parser.state = .end := by
  cases e with
  | crlf | lf => rfl
  | cr => exact absurd rfl he

end

/-- A character more of what a slot holds. -/
theorem consumes_slot {step : ParserStep} {slot : Slot} {n : ℕ} {c : UInt8} {s : Progress}
    (hstep : ∀ available, step available c (slot.taken n s) = .ok .next
      (({ slot.put ⟨s.request.streamSize, n + 1⟩ s with parser.state := slot.state } :
        Progress).advance n)) :
    Consumes step Progress.bump [c] (slot.taken n s) (slot.taken (n + 1) s) :=
  .single hstep

/-- What is counted up to the end, where characters of a slot or a line end can follow. -/
theorem ClosesLines.slot_iff {step : ParserStep} (h : ClosesLines step) {slot : Slot}
    {s t : Progress} {p : UInt8 → Bool} (hs : s.parser.remainingContent = 0)
    (hp : p 13 = false ∧ p 10 = false)
    (hloop : ∀ n c, p c = true →
      Consumes step Progress.bump [c] (slot.taken n s) (slot.taken (n + 1) s))
    (hcr : ∀ n available, step available 13 (slot.taken n s)
      = .ok .next { slot.taken n s with parser.state := .waitFinalLineLf })
    (hlf : ∀ n available, step available 10 (slot.taken n s)
      = .ok .next { slot.taken n s with parser.toleratedLf := true, parser.state := .end })
    (hother : ∀ n c v, p c = false → c ≠ 13 → c ≠ 10 → step 1 c (slot.taken n s) ≠ .ok .next v)
    (ht : t.parser.state = .end) {cs : List UInt8} {n : ℕ} :
    Consumes step Progress.bump cs (slot.taken n s) t ↔ ∃ run, (∀ c ∈ run, p c = true) ∧
      ∃ e ≠ LineEnd.cr, cs = run ++ e.bytes ∧ t = (slot.taken (n + run.length) s).close e := by
  have hclose : ∀ (n : ℕ) (rest : List UInt8), (∀ c ∈ rest.head?, p c = false) →
      (Consumes step Progress.bump rest (slot.taken n s) t ↔
        ∃ e ≠ LineEnd.cr, rest = e.bytes ∧ t = (slot.taken n s).close e) := by
    intro n rest hrest
    refine h.iff ?_ ?_ (hcr n) (hlf n) (fun c hc h13 h10 v => hother n c v (hrest c hc) h13 h10) ht
    · cases slot <;> simp [Slot.taken, Slot.state, Progress.advance]
    · cases slot <;> exact hs
  rw [Consumes.span_iff hloop]
  constructor
  · rintro ⟨run, rest, rfl, hrun, hrest, hconsumes⟩
    obtain ⟨e, he, rfl, rfl⟩ := (hclose _ _ hrest).mp hconsumes
    exact ⟨run, hrun, e, he, rfl, rfl⟩
  · rintro ⟨run, hrun, e, he, rfl, rfl⟩
    have hrest : ∀ c ∈ e.bytes.head?, p c = false := by
      cases e <;> simp [LineEnd.bytes, hp]
    exact ⟨run, e.bytes, rfl, hrun, hrest, (hclose _ _ hrest).mpr ⟨e, he, rfl, rfl⟩⟩

/-! ## Gopher and Nex -/

/-- A character of a selector. -/
def isSelector (c : UInt8) : Bool := c ≠ 9 && c ≠ 13 && c ≠ 10

theorem isSelector_iff {c : UInt8} : isSelector c = true ↔ c ≠ 9 ∧ c ≠ 13 ∧ c ≠ 10 := by
  simp [isSelector, and_assoc]

theorem parserParseGopherStep_closes : ClosesLines parserParseGopherStep where
  lf hs _ available := by simp [parserParseGopherStep, hs]
  only hs h := by
    simp only [parserParseGopherStep, hs] at h
    split_ifs at h with hc
    exact hc
  ended hs h := by simp [parserParseGopherStep, hs] at h

/-- The Gopher parser counts a selector with its line end. -/
theorem parserParseGopherStep_iff {w : List UInt8} {t : Progress} (ht : t.parser.state = .end) :
    Consumes parserParseGopherStep Progress.bump w (Progress.zero.begin .waitResourceEnd) t ↔
      ∃ selector, (∀ c ∈ selector, isSelector c = true) ∧ ∃ e ≠ LineEnd.cr,
        w = selector ++ e.bytes ∧ t = (Slot.resource.taken selector.length Progress.zero).close e := by
  have hstart : Progress.zero.begin .waitResourceEnd = Slot.resource.taken 0 Progress.zero := rfl
  have hseparator : isSelector 13 = false ∧ isSelector 10 = false := by decide
  rw [hstart, parserParseGopherStep_closes.slot_iff rfl hseparator ?_ (fun _ _ => rfl)
    (fun _ _ => rfl) ?_ ht]
  · simp only [Nat.zero_add]
  · intro n c hc
    obtain ⟨htab, hcr, hlf⟩ := isSelector_iff.mp hc
    exact consumes_slot fun available => by
      simp [parserParseGopherStep, Slot.taken, Slot.put, Slot.state, Progress.advance, htab, hcr, hlf]
  · intro n c v hc hcr hlf
    obtain rfl : c = 9 := by simpa [isSelector, hcr, hlf] using hc
    simp [parserParseGopherStep, Slot.taken, Slot.put, Slot.state, Progress.advance]

/-! ## Gemini, Text and Guppy -/

/-- A character of a host. -/
def isHost (c : UInt8) : Bool := isDomain c || c == 58

theorem parserParseGeminiLikeStep_closes (protocol : List UInt8) :
    ClosesLines (parserParseGeminiLikeStep protocol) where
  lf hs _ available := by simp [parserParseGeminiLikeStep, hs]
  only hs h := by
    simp only [parserParseGeminiLikeStep, hs] at h
    split_ifs at h with hc
    exact hc
  ended hs h := by simp [parserParseGeminiLikeStep, hs] at h

section

variable {protocol w : List UInt8} {s t : Progress}

/-- The rest of the line behind the slash of a path. -/
theorem geminiResource_iff (hs : s.parser.remainingContent = 0) (ht : t.parser.state = .end)
    {n : ℕ} : Consumes (parserParseGeminiLikeStep protocol) Progress.bump w (Slot.resource.taken n s) t ↔
      ∃ path, (∀ c ∈ path, isVisible c = true) ∧ ∃ e ≠ LineEnd.cr, w = path ++ e.bytes ∧
        t = (Slot.resource.taken (n + path.length) s).close e := by
  have hseparator : isVisible 13 = false ∧ isVisible 10 = false := by decide
  refine (parserParseGeminiLikeStep_closes protocol).slot_iff hs hseparator ?_ ?_ ?_ ?_ ht
  · intro n c hc
    exact consumes_slot fun available => by
      simp [parserParseGeminiLikeStep, Slot.taken, Slot.put, Slot.state, Progress.advance,
        isClass_resource, hc]
  · intro n available
    simp [parserParseGeminiLikeStep, Slot.taken, Slot.put, Slot.state, Progress.advance,
      isClass_resource, hseparator]
  · intro n available
    simp [parserParseGeminiLikeStep, Slot.taken, Slot.put, Slot.state, Progress.advance,
      isClass_resource, hseparator]
  · intro n c v hc hcr hlf
    simp [parserParseGeminiLikeStep, Slot.taken, Slot.put, Slot.state, Progress.advance,
      isClass_resource, hc, hcr, hlf]

/-- The rest of the line behind the protocol. -/
theorem geminiMethod_iff (hs : s.parser.remainingContent = 0) (ht : t.parser.state = .end) {n : ℕ} :
    Consumes (parserParseGeminiLikeStep protocol) Progress.bump w (Slot.method.taken n s) t ↔
      ∃ host, (∀ c ∈ host, isHost c = true) ∧
        ((∃ e ≠ LineEnd.cr, w = host ++ e.bytes ∧
            t = (Slot.method.taken (n + host.length) s).close e) ∨
          ∃ path, (∀ c ∈ path, isVisible c = true) ∧ ∃ e ≠ LineEnd.cr,
            w = host ++ 47 :: (path ++ e.bytes) ∧ t = (Slot.resource.taken (1 + path.length)
              (Slot.method.taken (n + host.length) s)).close e) := by
  have hseparator : isHost 13 = false ∧ isHost 10 = false ∧ isHost 47 = false := by decide
  have hloop : ∀ n c, isHost c = true → Consumes (parserParseGeminiLikeStep protocol) Progress.bump
      [c] (Slot.method.taken n s) (Slot.method.taken (n + 1) s) := by
    intro n c hc
    rw [isHost] at hc
    exact consumes_slot fun available => by
      simp [parserParseGeminiLikeStep, Slot.taken, Slot.put, Slot.state, Progress.advance,
        isClass_domain, hc]
  -- what ends the name of the host: a slash, or the end of the line
  have hother : ∀ n c available, isHost c = false → parserParseGeminiLikeStep protocol available c
      (Slot.method.taken n s) =
        if c = 47 then .ok .next { Slot.method.taken n s with
          request.resource := ⟨(Slot.method.taken n s).request.streamSize, 1⟩
          parser.state := .waitResourceEnd }
        else if c = 13 then
          .ok .next { Slot.method.taken n s with parser.state := .waitFinalLineLf }
        else if c = 10 then
          .ok .next { Slot.method.taken n s with parser.toleratedLf := true, parser.state := .end }
        else .error (invalidSymbol c) (Slot.method.taken n s) := by
    intro n c available hc
    rw [isHost, ← isClass_domain] at hc
    simp only [parserParseGeminiLikeStep, Slot.taken, Slot.put, Slot.state, Progress.advance, hc,
      Bool.false_eq_true, if_false]
  have hslash : ∀ n, Consumes (parserParseGeminiLikeStep protocol) Progress.bump [47]
      (Slot.method.taken n s) (Slot.resource.taken 1 (Slot.method.taken n s)) := fun n =>
    .single fun available => hother n 47 available hseparator.2.2
  have hclose : ∀ (n : ℕ) (rest : List UInt8), (∀ c ∈ rest.head?, isHost c = false ∧ c ≠ 47) →
      (Consumes (parserParseGeminiLikeStep protocol) Progress.bump rest (Slot.method.taken n s) t ↔
        ∃ e ≠ LineEnd.cr, rest = e.bytes ∧ t = (Slot.method.taken n s).close e) := by
    intro n rest hrest
    refine (parserParseGeminiLikeStep_closes protocol).iff (by simp [Slot.taken, Slot.state,
      Progress.advance]) hs (fun available => hother n 13 available hseparator.1)
      (fun available => hother n 10 available hseparator.2.1) (fun c hc hcr hlf v => ?_) ht
    obtain ⟨hhost, h47⟩ := hrest c hc
    rw [hother n c 1 hhost, if_neg h47, if_neg hcr, if_neg hlf]
    simp
  -- the name reaches as far as it can
  rw [Consumes.span_iff hloop]
  constructor
  · rintro ⟨host, rest, rfl, hhost, hrest, hconsumes⟩
    by_cases h47 : rest.head? = some 47
    · obtain ⟨rest, rfl⟩ := List.head?_eq_some_iff.mp h47
      obtain ⟨path, hpath, e, he, rfl, rfl⟩ := (geminiResource_iff (s := Slot.method.taken _ s) hs
        ht).mp ((hslash _).append_iff.mp hconsumes)
      exact ⟨host, hhost, .inr ⟨path, hpath, e, he, rfl, rfl⟩⟩
    · obtain ⟨e, he, rfl, rfl⟩ := (hclose _ rest fun c hc =>
        ⟨hrest c hc, fun heq => h47 (heq ▸ hc)⟩).mp hconsumes
      exact ⟨host, hhost, .inl ⟨e, he, rfl, rfl⟩⟩
  · rintro ⟨host, hhost, ⟨e, he, rfl, rfl⟩ | ⟨path, hpath, e, he, rfl, rfl⟩⟩
    · have hrest : ∀ c ∈ e.bytes.head?, isHost c = false ∧ c ≠ 47 := by
        cases e <;> simp [LineEnd.bytes, hseparator]
      exact ⟨host, e.bytes, rfl, hhost, fun c hc => (hrest c hc).1,
        (hclose _ _ hrest).mpr ⟨e, he, rfl, rfl⟩⟩
    · refine ⟨host, 47 :: (path ++ e.bytes), rfl, hhost, by simp [hseparator], ?_⟩
      exact (hslash _).append_iff.mpr ((geminiResource_iff (s := Slot.method.taken _ s) hs ht).mpr
        ⟨path, hpath, e, he, rfl, rfl⟩)

/-- The protocol in front of the line. -/
theorem geminiProtocol_iff {front rest : List UInt8} (hprotocol : protocol = front ++ rest)
    (hrest : rest ≠ []) (ht : t.parser.state = .end) :
    Consumes (parserParseGeminiLikeStep protocol) Progress.bump w
        (Slot.protocol.taken front.length Progress.zero) t ↔
      ∃ more, w = rest ++ more ∧ Consumes (parserParseGeminiLikeStep protocol) Progress.bump more
        (Slot.method.taken 0 (Slot.protocol.taken protocol.length Progress.zero)) t := by
  -- by induction on what is left of the name of the protocol
  induction rest generalizing front w with
  | nil => exact absurd rfl hrest
  | cons c rest ih =>
    have hget : protocol[front.length]? = some c := by simp [hprotocol]
    have hlength : protocol.length = front.length + (rest.length + 1) := by simp [hprotocol]
    have hstep : ∀ d available, parserParseGeminiLikeStep protocol available d
        (Slot.protocol.taken front.length Progress.zero) =
          if c = d then
            if front.length + 1 = protocol.length then
              .ok .next (Progress.advance front.length
                { Slot.protocol.put ⟨0, front.length + 1⟩ Progress.zero with
                  request.method.offset := protocol.length, parser.state := .waitMethodEnd })
            else
              .ok .next (Progress.advance front.length
                { Slot.protocol.put ⟨0, front.length + 1⟩ Progress.zero with
                  parser.state := .waitProtocolEnd })
          else .error (invalidSymbol d) (Slot.protocol.taken front.length Progress.zero) := by
      intro d available
      simp only [parserParseGeminiLikeStep, Slot.taken, Slot.put, Slot.state, Progress.advance, hget,
        Option.some.injEq]
      rfl
    -- the next character is the one that is expected, and no other
    have hcons : ∀ u, Consumes (parserParseGeminiLikeStep protocol) Progress.bump [c]
        (Slot.protocol.taken front.length Progress.zero) u →
        (Consumes (parserParseGeminiLikeStep protocol) Progress.bump w
          (Slot.protocol.taken front.length Progress.zero) t ↔
          ∃ more, w = c :: more ∧ Consumes (parserParseGeminiLikeStep protocol) Progress.bump more u
            t) := by
      intro u hu
      constructor
      · intro h
        rcases w with _ | ⟨d, more⟩
        · cases h
          exact absurd ht (by simp [Slot.taken, Slot.state, Progress.advance])
        · obtain rfl : c = d := by
            by_contra hne
            cases h with
            | cons head tail =>
              have hhead := head 1
              rw [hstep, if_neg hne] at hhead
              cases hhead
          exact ⟨more, rfl, hu.append_iff.mp h⟩
      · rintro ⟨more, rfl, hmore⟩
        exact hu.append_iff.mpr hmore
    rcases rest with _ | ⟨d, rest⟩
    · -- behind the last character the host begins
      have hlast : front.length + 1 = protocol.length := by simpa using hlength.symm
      have hu : Consumes (parserParseGeminiLikeStep protocol) Progress.bump [c]
          (Slot.protocol.taken front.length Progress.zero)
          (Slot.method.taken 0 (Slot.protocol.taken protocol.length Progress.zero)) := by
        have hsingle := @Consumes.single _ _ _ _ Progress.bump _ _ _ fun available =>
          (hstep c available).trans ((if_pos rfl).trans (if_pos hlast))
        simpa only [Slot.taken, Slot.put, Slot.state, Progress.advance, Progress.bump, Progress.zero,
          Request.zero, ValueLocation.zero, Nat.zero_add, Nat.add_zero, ← hlast] using hsingle
      exact hcons _ hu
    · have hnext : front.length + 1 ≠ protocol.length := by simp [hlength]
      have hu : Consumes (parserParseGeminiLikeStep protocol) Progress.bump [c]
          (Slot.protocol.taken front.length Progress.zero)
          (Slot.protocol.taken (front ++ [c]).length Progress.zero) := by
        rw [List.length_append]
        refine consumes_slot fun available => ?_
        rw [hstep, if_pos rfl, if_neg hnext]
        rfl
      rw [hcons _ hu]
      constructor
      · rintro ⟨more, rfl, hmore⟩
        obtain ⟨line, rfl, hline⟩ := (ih (hprotocol.trans (List.append_cons front c _))
          (List.cons_ne_nil d rest)).mp hmore
        exact ⟨line, rfl, hline⟩
      · rintro ⟨more, rfl, hmore⟩
        exact ⟨_, rfl, (ih (hprotocol.trans (List.append_cons front c _))
          (List.cons_ne_nil d rest)).mpr ⟨more, rfl, hmore⟩⟩

end

/-! ## Spartan -/

/-- `n` characters were counted after `s`, and the parser is in the state. -/
def Progress.passed (s : Progress) (state : ParserState) (n : ℕ) : Progress :=
  ({ s with parser.state := state } : Progress).advance n

/-- `n` characters of the length of the content were counted after `s`. -/
def Progress.lengthTaken (s : Progress) (n : ℕ) : Progress :=
  ({ s with parser.currentValue := ⟨s.request.streamSize, n⟩, parser.state := .waitNameEnd } :
    Progress).advance n

/-- Only zeros are read as zero. -/
theorem valueToUintPart_eq_zero_iff {cs : List UInt8} {n : ℕ} :
    valueToUintPart n cs = some 0 ↔ n = 0 ∧ ∀ c ∈ cs, c = 48 := by
  induction cs generalizing n with
  | nil => simp [valueToUintPart]
  | cons c cs ih =>
    have hlimit : (uintMax - 9) / 10 = 429496728 := rfl
    have hmodulus : uintModulus = 4294967296 := rfl
    rw [valueToUintPart, List.forall_mem_cons]
    split_ifs with hlarge hdigit
    · refine iff_of_false id fun h => ?_
      omega
    · have hc : c = 48 ↔ c.toNat = 48 := UInt8.toNat_inj.symm
      have hge : 48 ≤ c.toNat := UInt8.le_iff_toNat_le.mp hdigit.1
      have hle : c.toNat ≤ 57 := UInt8.le_iff_toNat_le.mp hdigit.2
      rw [ih, hc, Nat.mod_eq_of_lt (by omega), ← and_assoc]
      refine and_congr_left fun _ => ?_
      omega
    · refine iff_of_false id fun h => hdigit ?_
      rw [h.2.1]
      decide

section

variable {lookup : Lookup} {w : List UInt8} {s t : Progress}

theorem parserParseSpartanStep_closes : ClosesLines (parserParseSpartanStep lookup) where
  lf hs hremaining available := by
    simp [parserParseSpartanStep, hs, Parser.contentOrEnd, hremaining]
  only hs h := by
    simp only [parserParseSpartanStep, hs] at h
    split_ifs at h with hc
    exact hc
  ended hs h := by simp [parserParseSpartanStep, hs] at h

/-- The length of the content is all that is read when its line ends. -/
theorem parserParseSpartanLength_ok (h : parserParseSpartanLength lookup s = .ok () t) :
    t = { s with parser.remainingContent := t.parser.remainingContent } ∧
      ∃ value, lookup s.parser.currentValue = .ok value ∧
        valueToUint value = some t.parser.remainingContent := by
  simp only [parserParseSpartanLength] at h
  split at h
  · cases h
  split at h
  · cases h
  split_ifs at h
  obtain ⟨-, rfl⟩ := Outcome.ok.inj h
  exact ⟨rfl, _, ‹_›, ‹_›⟩

/-- A length that is not zero. -/
def Promised (s : Progress) : Prop :=
  s.parser.remainingContent ≠ 0 ∧
    (s.parser.state = .waitFinalLineLf ∨ s.parser.state = .waitContent)

/-- The request does not end at the end of a line that promises a content. -/
theorem Promised.consumes (hs : Promised s)
    (h : Consumes (parserParseSpartanStep lookup) Progress.bump w s t) : Promised t := by
  refine h.invariant hs fun c s t hs hstep => ?_
  obtain ⟨hremaining, hstate | hstate⟩ := hs
  · simp only [parserParseSpartanStep, hstate] at hstep
    split_ifs at hstep
    obtain ⟨-, rfl⟩ := Outcome.ok.inj hstep
    exact ⟨hremaining, .inr (if_pos (Nat.pos_of_ne_zero hremaining))⟩
  · simp [parserParseSpartanStep, hstate] at hstep

/-- A content that is waited for is not empty. -/
def AwaitsContent (s : Progress) : Prop :=
  s.parser.state = .waitContent → s.parser.remainingContent ≠ 0

theorem contentOrEnd_awaits {parser : Parser} (h : parser.contentOrEnd = .waitContent) :
    parser.remainingContent ≠ 0 := by
  intro hzero
  simp [Parser.contentOrEnd, hzero] at h

theorem AwaitsContent.consumes (hs : AwaitsContent s)
    (h : Consumes (parserParseSpartanStep lookup) Progress.bump w s t) : AwaitsContent t := by
  refine h.invariant hs fun c s t hs hstep => ?_
  cases hstate : s.parser.state with
  | waitNameEnd =>
    simp only [parserParseSpartanStep, hstate] at hstep
    split_ifs at hstep with _ hnewline
    · obtain ⟨-, rfl⟩ := Outcome.ok.inj hstep
      exact fun hcontent => absurd hcontent (by simp)
    · obtain ⟨_, u, -, hnext⟩ := Outcome.andThen_eq_ok.mp hstep
      obtain ⟨-, rfl⟩ := Outcome.ok.inj hnext
      exact fun hcontent => absurd hcontent (by simp)
    · obtain ⟨_, u, -, hnext⟩ := Outcome.andThen_eq_ok.mp hstep
      obtain ⟨-, rfl⟩ := Outcome.ok.inj hnext
      exact contentOrEnd_awaits
    · rcases isClass_newline_iff.mp hnewline with h10 | h13 <;> contradiction
  | waitFinalLineLf =>
    simp only [parserParseSpartanStep, hstate] at hstep
    split_ifs at hstep
    obtain ⟨-, rfl⟩ := Outcome.ok.inj hstep
    exact contentOrEnd_awaits
  | _ =>
    simp only [parserParseSpartanStep, hstate] at hstep
    try split_ifs at hstep
    all_goals cases hstep
    all_goals intro hcontent
    all_goals simp_all

/-- A field up to the space behind it. -/
theorem spartanField_iff {p : UInt8 → Bool} {slot : Slot} (next : ParserState) (hp : p 32 = false)
    (hstep : ∀ n c available, parserParseSpartanStep lookup available c (slot.taken n s) =
      if c = 32 then .ok .next { slot.taken n s with parser.state := next }
      else if p c then .ok .next (({ slot.put ⟨s.request.streamSize, n + 1⟩ s with
        parser.state := slot.state } : Progress).advance n)
      else .error (invalidSymbol c) (slot.taken n s))
    (ht : t.parser.state = .end) {n : ℕ} :
    Consumes (parserParseSpartanStep lookup) Progress.bump w (slot.taken n s) t ↔
      ∃ field rest, w = field ++ 32 :: rest ∧ (∀ c ∈ field, p c = true) ∧
        Consumes (parserParseSpartanStep lookup) Progress.bump rest
          ((slot.taken (n + field.length) s).passed next 1) t := by
  have hne : ∀ c, p c = true → c ≠ 32 := by
    rintro c hc rfl
    simp [hp] at hc
  have hloop : ∀ n c, p c = true → Consumes (parserParseSpartanStep lookup) Progress.bump [c]
      (slot.taken n s) (slot.taken (n + 1) s) := by
    intro n c hc
    refine consumes_slot fun available => ?_
    rw [hstep, if_neg (hne c hc), if_pos hc]
  have hleave : ∀ n c, (c == 32) = true → Consumes (parserParseSpartanStep lookup) Progress.bump [c]
      (slot.taken n s) ((slot.taken n s).passed next 1) := by
    intro n c hc
    refine .single fun available => ?_
    rw [hstep, if_pos (eq_of_beq hc)]
  have hstop : ∀ n c u, p c = false → (c == 32) = false →
      parserParseSpartanStep lookup 1 c (slot.taken n s) ≠ .ok .next u := by
    intro n c u hc h32
    rw [hstep, if_neg (ne_of_beq_false h32), hc]
    simp
  have hstate : ∀ n, slot.taken n s ≠ t := by
    rintro n rfl
    cases slot <;> cases ht
  rw [Consumes.span_leave_iff hloop hleave hstop (fun c hc => by rw [eq_of_beq hc, hp]) hstate]
  constructor
  · rintro ⟨field, c, rest, rfl, hfield, hc, hrest⟩
    exact ⟨field, rest, by rw [eq_of_beq hc], hfield, hrest⟩
  · rintro ⟨field, rest, rfl, hfield, hrest⟩
    exact ⟨field, 32, rest, rfl, hfield, rfl, hrest⟩

/-- More spaces in front of a field, and the first character of it. -/
theorem spartanSpaces_iff (next : ParserState) (enter : Progress → Progress)
    (hstep : ∀ n c available, parserParseSpartanStep lookup available c (s.passed next n) =
      if c = 32 then .ok .next (s.passed next n)
      else if isVisible c then .ok .next (enter (s.passed next n))
      else .error (invalidSymbol c) (s.passed next n))
    (hnext : next ≠ .end) (ht : t.parser.state = .end) {n : ℕ} :
    Consumes (parserParseSpartanStep lookup) Progress.bump w (s.passed next n) t ↔
      ∃ spaces c rest, w = List.replicate spaces 32 ++ c :: rest ∧ isVisible c = true ∧
        Consumes (parserParseSpartanStep lookup) Progress.bump rest
          (enter (s.passed next (n + spaces))).bump t := by
  have hspace : isVisible 32 = false := by decide
  have hne : ∀ c, isVisible c = true → c ≠ 32 := by
    rintro c hc rfl
    simp [hspace] at hc
  -- spaces are passed over, a visible character leaves them, anything else is refused
  have hloop : ∀ n c, (c == 32) = true → Consumes (parserParseSpartanStep lookup) Progress.bump [c]
      (s.passed next n) (s.passed next (n + 1)) := by
    intro n c hc
    refine .cons (t := s.passed next n) (fun available => ?_) (.nil _)
    rw [hstep, if_pos (eq_of_beq hc)]
  have hleave : ∀ n c, isVisible c = true → Consumes (parserParseSpartanStep lookup) Progress.bump [c]
      (s.passed next n) (enter (s.passed next n)).bump := by
    intro n c hc
    refine .single fun available => ?_
    rw [hstep, if_neg (hne c hc), if_pos hc]
  have hstop : ∀ n c u, (c == 32) = false → isVisible c = false →
      parserParseSpartanStep lookup 1 c (s.passed next n) ≠ .ok .next u := by
    intro n c u h32 hc
    rw [hstep, if_neg (ne_of_beq_false h32), hc]
    simp
  have hstate : ∀ n, s.passed next n ≠ t := by
    rintro n rfl
    exact hnext ht
  rw [Consumes.span_leave_iff hloop hleave hstop (fun c hc => beq_false_of_ne (hne c hc)) hstate]
  constructor
  · rintro ⟨run, c, rest, rfl, hrun, hc, hrest⟩
    have hrun := List.eq_replicate_of_mem fun d hd => eq_of_beq (hrun d hd)
    exact ⟨run.length, c, rest, by rw [← hrun], hc, hrest⟩
  · rintro ⟨spaces, c, rest, rfl, hc, hrest⟩
    refine ⟨_, c, rest, rfl, fun d hd => ?_, hc, ?_⟩
    · rw [List.eq_of_mem_replicate hd, beq_self_eq_true]
    · rwa [List.length_replicate]

/-- The end of the line, behind a length of the content that is looked up. -/
theorem spartanLength_iff {digits : List UInt8} (hs : s.parser.remainingContent = 0)
    (hlookup : ∃ value, lookup ⟨s.request.streamSize, digits.length⟩ = .ok value ∧
      value.bytes = digits)
    (hsize : s.request.streamSize + digits.length ≤ maxRequestSize)
    (ht : t.parser.state = .end) {rest : List UInt8}
    (hrest : ∀ c ∈ rest.head?, isVisible c = false) :
    Consumes (parserParseSpartanStep lookup) Progress.bump rest (s.lengthTaken digits.length) t ↔
      (∀ c ∈ digits, c = 48) ∧
        ∃ e ≠ LineEnd.cr, rest = e.bytes ∧ t = (s.lengthTaken digits.length).close e := by
  obtain ⟨value, hvalue, rfl⟩ := hlookup
  have hvisible : ∀ c, isVisible c = false → ∀ available, parserParseSpartanStep lookup available c
      (s.lengthTaken value.bytes.length) = if isClass cmNewline c then
        (parserParseSpartanLength lookup (s.lengthTaken value.bytes.length)).andThen fun _ s =>
          if c = 13 then .ok .next { s with parser.state := .waitFinalLineLf }
          else if c = 10 then
            .ok .next { s with parser.toleratedLf := true, parser.state := s.parser.contentOrEnd }
          else .ok .next s
        else .error (invalidSymbol c) (s.lengthTaken value.bytes.length) := by
    intro c hc available
    rw [← isClass_resource] at hc
    simp only [parserParseSpartanStep, Progress.lengthTaken, Progress.advance, hc,
      Bool.false_eq_true, if_false]
  -- the line is the whole request exactly when no content is promised
  by_cases hzeros : ∀ c ∈ value.bytes, c = 48
  · have huint : valueToUint value = some 0 := by
      rw [valueToUint_eq, valueToUintPart_eq_zero_iff]
      exact ⟨rfl, hzeros⟩
    have hlength : parserParseSpartanLength lookup (s.lengthTaken value.bytes.length)
        = .ok () (s.lengthTaken value.bytes.length) := by
      have hmax : maxRequestSize = 1048576 := rfl
      have hfit : sizeAdd (sizeAdd s.request.streamSize value.bytes.length) 0 ≤ maxRequestSize := by
        rw [sizeAdd_eq (a := s.request.streamSize) (by omega), sizeAdd_eq (by omega)]
        exact hsize
      simp only [parserParseSpartanLength, Progress.lengthTaken, Progress.advance, hvalue, huint,
        if_pos hfit, hs]
    have hremaining : (s.lengthTaken value.bytes.length).parser.remainingContent = 0 := hs
    rw [parserParseSpartanStep_closes.iff (by simp [Progress.lengthTaken, Progress.advance])
      hremaining ?_ ?_ ?_ ht]
    · exact ⟨fun h => ⟨hzeros, h⟩, fun h => h.2⟩
    · intro available
      rw [hvisible 13 (by decide), hlength, if_pos (by decide), Outcome.andThen_ok, if_pos rfl]
    · intro available
      rw [hvisible 10 (by decide), hlength, if_pos (by decide), Outcome.andThen_ok]
      simp only [Parser.contentOrEnd, Progress.lengthTaken, Progress.advance, hs]
      rfl
    · intro c hc hcr hlf v
      have hnewline : ¬ isClass cmNewline c = true := by
        rw [isClass_newline_iff]
        exact not_or.mpr ⟨hlf, hcr⟩
      rw [hvisible c (hrest c hc), if_neg hnewline]
      simp
  · have hpromised : ∀ v, parserParseSpartanLength lookup (s.lengthTaken value.bytes.length) = .ok () v →
        v.parser.remainingContent ≠ 0 := by
      intro v hv hzero
      obtain ⟨-, value', hvalue', huint⟩ := parserParseSpartanLength_ok hv
      obtain rfl : value = value' := Except.ok.inj (hvalue.symm.trans hvalue')
      rw [hzero, valueToUint_eq, valueToUintPart_eq_zero_iff] at huint
      exact hzeros huint.2
    -- a promise is not taken back, and the end is not reached without the content
    refine iff_of_false (fun h => ?_) fun h => hzeros h.1
    cases h with
    | nil => exact absurd ht (by simp [Progress.lengthTaken, Progress.advance])
    | @cons c rest _ u _ head tail =>
      have hu : Promised u.bump := by
        have hhead := head 1
        rw [hvisible c (hrest c rfl)] at hhead
        split_ifs at hhead with hnewline h13 h10
        · obtain ⟨_, v, hv, hnext⟩ := Outcome.andThen_eq_ok.mp hhead
          obtain ⟨-, rfl⟩ := Outcome.ok.inj hnext
          exact ⟨hpromised v hv, .inl rfl⟩
        · obtain ⟨_, v, hv, hnext⟩ := Outcome.andThen_eq_ok.mp hhead
          obtain ⟨-, rfl⟩ := Outcome.ok.inj hnext
          exact ⟨hpromised v hv, .inr (if_pos (Nat.pos_of_ne_zero (hpromised v hv)))⟩
        · rcases isClass_newline_iff.mp hnewline with h | h <;> contradiction
      obtain ⟨-, hstate | hstate⟩ := hu.consumes tail <;>
        exact absurd (ht.symm.trans hstate) (by decide)

theorem spartanMethod_iff (ht : t.parser.state = .end) {n : ℕ} :
    Consumes (parserParseSpartanStep lookup) Progress.bump w (Slot.method.taken n s) t ↔
      ∃ field rest, w = field ++ 32 :: rest ∧ (∀ c ∈ field, isDomain c = true) ∧
        Consumes (parserParseSpartanStep lookup) Progress.bump rest
          ((Slot.method.taken (n + field.length) s).passed .waitResourceBegin 1) t := by
  refine spartanField_iff _ (by decide) (fun n c available => ?_) ht
  simp [parserParseSpartanStep, Slot.taken, Slot.state, Slot.put, Progress.advance, isClass_domain]

theorem spartanResource_iff (ht : t.parser.state = .end) {n : ℕ} :
    Consumes (parserParseSpartanStep lookup) Progress.bump w (Slot.resource.taken n s) t ↔
      ∃ field rest, w = field ++ 32 :: rest ∧ (∀ c ∈ field, isVisible c = true) ∧
        Consumes (parserParseSpartanStep lookup) Progress.bump rest
          ((Slot.resource.taken (n + field.length) s).passed .waitNameBegin 1) t := by
  refine spartanField_iff _ (by decide) (fun n c available => ?_) ht
  simp [parserParseSpartanStep, Slot.taken, Slot.state, Slot.put, Progress.advance,
    isClass_resource]

theorem spartanBeforeResource_iff (ht : t.parser.state = .end) {n : ℕ} :
    Consumes (parserParseSpartanStep lookup) Progress.bump w (s.passed .waitResourceBegin n) t ↔
      ∃ spaces c rest, w = List.replicate spaces 32 ++ c :: rest ∧ isVisible c = true ∧
        Consumes (parserParseSpartanStep lookup) Progress.bump rest
          (Slot.resource.taken 1 (s.passed .waitResourceBegin (n + spaces))) t := by
  refine spartanSpaces_iff .waitResourceBegin (fun s => { s with
    request.resource := ⟨s.request.streamSize, 1⟩, parser.state := .waitResourceEnd })
    (fun n c available => ?_) (by decide) ht
  simp [parserParseSpartanStep, Progress.passed, Progress.advance, isClass_resource]

theorem spartanBeforeLength_iff (ht : t.parser.state = .end) {n : ℕ} :
    Consumes (parserParseSpartanStep lookup) Progress.bump w (s.passed .waitNameBegin n) t ↔
      ∃ spaces c rest, w = List.replicate spaces 32 ++ c :: rest ∧ isVisible c = true ∧
        Consumes (parserParseSpartanStep lookup) Progress.bump rest
          ((s.passed .waitNameBegin (n + spaces)).lengthTaken 1) t := by
  refine spartanSpaces_iff .waitNameBegin (fun s => { s with
    parser.currentValue := ⟨s.request.streamSize, 1⟩, parser.state := .waitNameEnd })
    (fun n c available => ?_) (by decide) ht
  simp [parserParseSpartanStep, Progress.passed, Progress.advance, isClass_resource]

/-- The characters of a length of the content. -/
theorem spartanDigits_iff {n : ℕ} :
    Consumes (parserParseSpartanStep lookup) Progress.bump w (s.lengthTaken n) t ↔
      ∃ run rest, w = run ++ rest ∧ (∀ c ∈ run, isVisible c = true) ∧
        (∀ c ∈ rest.head?, isVisible c = false) ∧
        Consumes (parserParseSpartanStep lookup) Progress.bump rest (s.lengthTaken (n + run.length))
          t := by
  refine Consumes.span_iff fun n c hc => ?_
  have hstep : ∀ available, parserParseSpartanStep lookup available c (s.lengthTaken n) = .ok .next
      (({ s with parser.currentValue := ⟨s.request.streamSize, n + 1⟩,
                 parser.state := .waitNameEnd } : Progress).advance n) := by
    intro available
    simp [parserParseSpartanStep, Progress.lengthTaken, Progress.advance, isClass_resource, hc]
  exact .single hstep

/-- What the host, the path and the spaces of a line of Spartan lead to. -/
def spartanFront (fields : LineFields) (before after : ℕ) : Progress :=
  (Slot.resource.taken fields.resource.length ((Slot.method.taken fields.method.length
    Progress.zero).passed .waitResourceBegin before)).passed .waitNameBegin after

/-- The end of a line of Spartan, behind its digits. -/
theorem spartanEnd_iff (fields : LineFields) (before after : ℕ) (digits : List UInt8) {rest : List UInt8}
    (hw : w.length ≤ maxRequestSize) (ht : t.parser.state = .end)
    (hline : w = fields.method ++ (List.replicate before 32 ++ (fields.resource ++
      (List.replicate after 32 ++ (digits ++ rest)))))
    (hrest : ∀ c ∈ rest.head?, isVisible c = false) :
    Consumes (parserParseSpartanStep (wholeLookup w)) Progress.bump rest
        ((spartanFront fields before after).lengthTaken digits.length) t ↔
      (∀ c ∈ digits, c = 48) ∧ ∃ e ≠ LineEnd.cr, rest = e.bytes ∧
        t = ((spartanFront fields before after).lengthTaken digits.length).close e := by
  have hfront : (spartanFront fields before after).request.streamSize = (fields.method ++
      (List.replicate before 32 ++ (fields.resource ++ List.replicate after 32))).length := by
    simp [spartanFront, Slot.taken, Slot.put, Progress.passed, Progress.advance, Progress.zero,
      Request.zero, Nat.add_assoc]
  have hsegment : segment w ⟨(spartanFront fields before after).request.streamSize, digits.length⟩
      false = digits := by
    have hmiddle := segment_middle (fields.method ++ (List.replicate before 32 ++ (fields.resource ++
      List.replicate after 32))) digits rest
    simpa only [hfront, hline, List.append_assoc] using hmiddle
  refine spartanLength_iff rfl ⟨_, rfl, ?_⟩ ?_ ht hrest
  · rw [ConstantValue.bytes, List.append_nil, hsegment]
  · have hlen := congrArg List.length hline
    simp only [List.length_append, List.length_replicate] at hlen hfront
    omega

/-- The Spartan parser counts the lines of Spartan. -/
theorem spartanLine_iff (hw : w.length ≤ maxRequestSize) (ht : t.parser.state = .end) :
    Consumes (parserParseSpartanStep (wholeLookup w)) Progress.bump w
        (Progress.zero.begin .waitMethodEnd) t ↔
      ∃ fields before after zeros e, SpartanSpelling w fields before after zeros e ∧
        t = ((spartanFront fields before after).lengthTaken zeros).close e := by
  have hstart : Progress.zero.begin .waitMethodEnd = Slot.method.taken 0 Progress.zero := rfl
  rw [hstart]
  constructor
  · intro h
    -- read from the left, every state takes the part that is its own
    obtain ⟨method, rest, hline, hmethod, h⟩ := (spartanMethod_iff ht).mp h
    obtain ⟨before, c, rest, rfl, hc, h⟩ := (spartanBeforeResource_iff ht).mp h
    obtain ⟨resource, rest, rfl, hresource, h⟩ := (spartanResource_iff ht).mp h
    obtain ⟨after, d, rest, rfl, hd, h⟩ := (spartanBeforeLength_iff ht).mp h
    obtain ⟨run, rest, rfl, hrun, hrest, h⟩ := spartanDigits_iff.mp h
    simp only [Nat.zero_add, Nat.add_comm 1] at h
    obtain ⟨hzeros, e, he, rfl, rfl⟩ := (spartanEnd_iff ⟨method, c :: resource, []⟩ (before + 1)
      (after + 1) (d :: run) hw ht hline hrest).mp h
    have hdigits := List.eq_replicate_of_mem hzeros
    refine ⟨⟨method, c :: resource, []⟩, before + 1, after + 1, run.length + 1, e, ⟨rfl, hmethod,
      List.cons_ne_nil _ _, List.forall_mem_cons.mpr ⟨hc, hresource⟩, Nat.succ_pos _, Nat.succ_pos _,
      Nat.succ_pos _, he, ?_⟩, rfl⟩
    rw [List.length_cons] at hdigits
    rw [← hdigits]
    exact hline
  · rintro ⟨⟨method, resource, protocol⟩, before, after, zeros, e, h, rfl⟩
    obtain ⟨c, resource, rfl⟩ := List.exists_cons_of_ne_nil h.resource_ne
    obtain ⟨before, rfl⟩ := Nat.exists_eq_add_one_of_ne_zero h.before_pos.ne'
    obtain ⟨after, rfl⟩ := Nat.exists_eq_add_one_of_ne_zero h.after_pos.ne'
    obtain ⟨zeros, rfl⟩ := Nat.exists_eq_add_one_of_ne_zero h.zeros_pos.ne'
    obtain ⟨hc, hresource⟩ := List.forall_mem_cons.mp h.resource
    have hrest : ∀ c ∈ e.bytes.head?, isVisible c = false := by
      have hseparator : isVisible 13 = false ∧ isVisible 10 = false := by decide
      cases e <;> simp [LineEnd.bytes, hseparator]
    have hend := (spartanEnd_iff _ _ _ _ hw ht h.line hrest).mpr
      ⟨fun c hc => List.eq_of_mem_replicate hc, e, h.lineEnd, rfl, by rw [List.length_replicate]⟩
    have hvisible : ∀ c ∈ List.replicate zeros (48 : UInt8), isVisible c = true := by
      intro c hc
      rw [List.eq_of_mem_replicate hc]
      decide
    have hline := h.line
    generalize wholeLookup w = lookup at hend ⊢
    rw [hline]
    -- and a line that is put together so is read part by part
    refine (spartanMethod_iff ht).mpr ⟨method, _, rfl, h.method, ?_⟩
    refine (spartanBeforeResource_iff ht).mpr ⟨before, c, _, rfl, hc, ?_⟩
    refine (spartanResource_iff ht).mpr ⟨resource, _, rfl, hresource, ?_⟩
    refine (spartanBeforeLength_iff ht).mpr ⟨after, 48, _, rfl, by decide, ?_⟩
    refine spartanDigits_iff.mpr ⟨List.replicate zeros 48, _, rfl, hvisible, hrest, ?_⟩
    simp only [Nat.zero_add, Nat.add_comm 1, List.length_replicate] at hend ⊢
    exact hend

end

/-! ## Every protocol with one line -/

section

variable {w : List UInt8} {acceptingSocket : ℕ} {rings : List Ring}

/-- A parser that counts the lines of a language, and no other bytes up to the end, accepts the lines
of the language, and the fields it finds are theirs. -/
theorem Resumes.line {Inv : Progress → Prop} {initial : ParserState} {step : Lookup → ParserStep}
    {language : LineFields → Prop} (hp : Resumes Inv initial step)
    (hfunction : ∀ lookup, parserFunction acceptingSocket lookup = parsePart initial (step lookup))
    (hw : w.length < maxRequestSize) (hr : Delivers w 0 rings) (hzero : Inv Progress.zero)
    (hcontent : ∀ {t header : Progress} {cs : List UInt8},
      (acceptingSocketProtocol acceptingSocket = .spartan → t.parser.remainingContent = 0) →
      Consumes (step (wholeLookup w)) Progress.bump cs (Progress.zero.begin initial) header →
        header.parser.state = .waitContent →
          header.parser.remainingContent ≠ t.parser.remainingContent)
    (hlanguage : ∀ {t : Progress}, t.parser.state = .end → Consumes (step (wholeLookup w)) Progress.bump w
      (Progress.zero.begin initial) t → ∃ fields, language fields)
    (hline : ∀ {fields}, language fields → ∃ t : Progress, t.parser.state = .end ∧
      t.parser.remainingContent = 0 ∧ SelectsFields w t.request fields ∧
      Consumes (step (wholeLookup w)) Progress.bump w (Progress.zero.begin initial) t) :
    ((∃ s, parserParses acceptingSocket rings Progress.zero = .ok () s ∧ EndsLine acceptingSocket w s) ↔
      ∃ fields, language fields) ∧
    ∀ s fields, parserParses acceptingSocket rings Progress.zero = .ok () s →
      EndsLine acceptingSocket w s → language fields → SelectsFields w s.request fields := by
  have hiff : ∀ t : Progress, t.parser.state = .end →
      (acceptingSocketProtocol acceptingSocket = .spartan → t.parser.remainingContent = 0) →
      (parserParses acceptingSocket rings Progress.zero = .ok () t ∧ t.request.streamSize = w.length ↔
        Consumes (step (wholeLookup w)) Progress.bump w (Progress.zero.begin initial) t) :=
    fun t hend hnone => hp.ends_iff hfunction hw hr hzero hend (hcontent hnone)
  have hconsumes : ∀ s, parserParses acceptingSocket rings Progress.zero = .ok () s →
      EndsLine acceptingSocket w s →
        Consumes (step (wholeLookup w)) Progress.bump w (Progress.zero.begin initial) s :=
    fun s hparses h => (hiff s h.ends h.noContent).mp ⟨hparses, h.streamSize⟩
  refine ⟨⟨?_, ?_⟩, ?_⟩
  · rintro ⟨s, hparses, h⟩
    exact hlanguage h.ends (hconsumes s hparses h)
  · rintro ⟨fields, hfields⟩
    obtain ⟨t, hend, hnone, -, ht⟩ := hline hfields
    obtain ⟨hparses, hsize⟩ := (hiff t hend fun _ => hnone).mpr ht
    exact ⟨t, hparses, hend, hsize, fun _ => hnone⟩
  · intro s fields hparses h hfields
    obtain ⟨t, -, -, hselects, ht⟩ := hline hfields
    exact (hconsumes s hparses h).unique ht ▸ hselects

theorem PlainStep.line {step : ParserStep} {language : LineFields → Prop} (hp : PlainStep step)
    (initial : ParserState) (hbegin : initial ≠ .begin) (hend : initial ≠ .end)
    (hcontent : initial ≠ .waitContent)
    (hfunction : ∀ lookup, parserFunction acceptingSocket lookup = parsePart initial step)
    (hw : w.length < maxRequestSize) (hr : Delivers w 0 rings)
    (hlanguage : ∀ {t : Progress}, t.parser.state = .end →
      Consumes step Progress.bump w (Progress.zero.begin initial) t → ∃ fields, language fields)
    (hline : ∀ {fields}, language fields → ∃ t : Progress, t.parser.state = .end ∧
      t.parser.remainingContent = 0 ∧ SelectsFields w t.request fields ∧
      Consumes step Progress.bump w (Progress.zero.begin initial) t) :
    ((∃ s, parserParses acceptingSocket rings Progress.zero = .ok () s ∧ EndsLine acceptingSocket w s) ↔
      ∃ fields, language fields) ∧
    ∀ s fields, parserParses acceptingSocket rings Progress.zero = .ok () s →
      EndsLine acceptingSocket w s → language fields → SelectsFields w s.request fields := by
  refine (hp.resumes hbegin hend).line hfunction hw hr trivial ?_ hlanguage hline
  intro t header cs _ hconsumes hstate
  exact absurd hstate ((hp.consumes hconsumes).2.2 hcontent)

theorem GopherLine.consumes {fields : LineFields} (h : GopherLine w fields) :
    ∃ t : Progress, t.parser.state = .end ∧ t.parser.remainingContent = 0 ∧
      SelectsFields w t.request fields ∧
      Consumes parserParseGopherStep Progress.bump w (Progress.zero.begin .waitResourceEnd) t := by
  obtain ⟨method, resource, protocol⟩ := fields
  obtain ⟨rfl, rfl, hselector, e, he, rfl⟩ := h
  obtain ⟨hmethod, hresource, hprotocol, hremaining⟩ :=
    (Slot.resource.taken resource.length Progress.zero).close_fields e
  have hend := (Slot.resource.taken resource.length Progress.zero).close_state he
  refine ⟨_, hend, hremaining, ⟨?_, ?_, ?_⟩, (parserParseGopherStep_iff hend).mpr
    ⟨resource, fun c hc => isSelector_iff.mpr (hselector c hc), e, he, rfl, rfl⟩⟩
  · rw [hmethod]
    exact .nothing _
  · rw [hresource]
    exact .middle [] resource e.bytes
  · rw [hprotocol]
    exact .nothing _

theorem gopherLine_of_consumes {t : Progress} (ht : t.parser.state = .end)
    (h : Consumes parserParseGopherStep Progress.bump w (Progress.zero.begin .waitResourceEnd) t) :
    ∃ fields, GopherLine w fields := by
  obtain ⟨selector, hselector, e, he, rfl, -⟩ := (parserParseGopherStep_iff ht).mp h
  exact ⟨⟨[], selector, []⟩, rfl, rfl, fun c hc => isSelector_iff.mp (hselector c hc), e, he, rfl⟩

theorem SpartanLine.consumes {fields : LineFields} (hw : w.length ≤ maxRequestSize)
    (h : SpartanLine w fields) :
    ∃ t : Progress, t.parser.state = .end ∧ t.parser.remainingContent = 0 ∧
      SelectsFields w t.request fields ∧ Consumes (parserParseSpartanStep (wholeLookup w))
        Progress.bump w (Progress.zero.begin .waitMethodEnd) t := by
  obtain ⟨before, after, zeros, e, h⟩ := h
  obtain ⟨hmethod, hresource, hprotocol, hremaining⟩ :=
    ((spartanFront fields before after).lengthTaken zeros).close_fields e
  have hend := ((spartanFront fields before after).lengthTaken zeros).close_state h.lineEnd
  refine ⟨_, hend, hremaining, ⟨?_, ?_, ?_⟩, (spartanLine_iff hw hend).mpr
    ⟨fields, before, after, zeros, e, h, rfl⟩⟩
  · rw [hmethod, h.line]
    exact .middle [] fields.method _
  · have hmiddle := Selects.middle (fields.method ++ List.replicate before 32) fields.resource
      (List.replicate after 32 ++ (List.replicate zeros 48 ++ e.bytes))
    have hlocation : (spartanFront fields before after).request.resource
        = ⟨(fields.method ++ List.replicate before 32).length, fields.resource.length⟩ := by
      simp [spartanFront, Slot.taken, Slot.put, Progress.passed, Progress.advance, Progress.zero,
        Request.zero]
    have hlengthTaken : ((spartanFront fields before after).lengthTaken zeros).request.resource
        = (spartanFront fields before after).request.resource := rfl
    rw [hresource, hlengthTaken, hlocation, h.line]
    simpa only [List.append_assoc] using hmiddle
  · rw [hprotocol, h.protocol]
    exact .nothing _

theorem spartanLine_of_consumes {t : Progress} (hw : w.length ≤ maxRequestSize)
    (ht : t.parser.state = .end) (h : Consumes (parserParseSpartanStep (wholeLookup w)) Progress.bump
      w (Progress.zero.begin .waitMethodEnd) t) : ∃ fields, SpartanLine w fields := by
  obtain ⟨fields, before, after, zeros, e, hspelling, -⟩ := (spartanLine_iff hw ht).mp h
  exact ⟨fields, before, after, zeros, e, hspelling⟩

theorem isHost_iff {c : UInt8} : isHost c = true ↔ isDomain c = true ∨ c = 58 := by
  simp [isHost]

/-- The Gemini-like parsers count the protocol, a host and perhaps a path. -/
theorem geminiLine_iff {protocol : List UInt8} {t : Progress} (hprotocol : protocol ≠ [])
    (ht : t.parser.state = .end) :
    Consumes (parserParseGeminiLikeStep protocol) Progress.bump w
        (Progress.zero.begin .waitProtocolEnd) t ↔
      ∃ host, (∀ c ∈ host, isHost c = true) ∧
        ((∃ e ≠ LineEnd.cr, w = protocol ++ (host ++ e.bytes) ∧
            t = (Slot.method.taken host.length
              (Slot.protocol.taken protocol.length Progress.zero)).close e) ∨
          ∃ path, (∀ c ∈ path, isVisible c = true) ∧ ∃ e ≠ LineEnd.cr,
            w = protocol ++ (host ++ 47 :: (path ++ e.bytes)) ∧
            t = (Slot.resource.taken (1 + path.length) (Slot.method.taken host.length
              (Slot.protocol.taken protocol.length Progress.zero))).close e) := by
  have hstart : Progress.zero.begin .waitProtocolEnd = Slot.protocol.taken ([] : List UInt8).length
    Progress.zero := rfl
  rw [hstart, geminiProtocol_iff (List.nil_append protocol).symm hprotocol ht]
  constructor
  · rintro ⟨more, rfl, h⟩
    obtain ⟨host, hhost, h⟩ := (geminiMethod_iff rfl ht).mp h
    rw [Nat.zero_add] at h
    obtain ⟨e, he, rfl, rfl⟩ | ⟨path, hpath, e, he, rfl, rfl⟩ := h
    · exact ⟨host, hhost, .inl ⟨e, he, rfl, rfl⟩⟩
    · exact ⟨host, hhost, .inr ⟨path, hpath, e, he, rfl, rfl⟩⟩
  · rintro ⟨host, hhost, h⟩
    obtain ⟨e, he, rfl, h⟩ | ⟨path, hpath, e, he, rfl, h⟩ := h
    · refine ⟨_, rfl, (geminiMethod_iff rfl ht).mpr ⟨host, hhost, .inl ⟨e, he, rfl, ?_⟩⟩⟩
      rwa [Nat.zero_add]
    · refine ⟨_, rfl, (geminiMethod_iff rfl ht).mpr ⟨host, hhost, .inr ⟨path, hpath, e, he, rfl, ?_⟩⟩⟩
      rwa [Nat.zero_add]

theorem GeminiLine.consumes {protocol : List UInt8} {fields : LineFields}
    (hprotocol : protocol ≠ []) (h : GeminiLine protocol w fields) :
    ∃ t : Progress, t.parser.state = .end ∧ t.parser.remainingContent = 0 ∧
      SelectsFields w t.request fields ∧ Consumes (parserParseGeminiLikeStep protocol)
        Progress.bump w (Progress.zero.begin .waitProtocolEnd) t := by
  obtain ⟨host, resource, prefixed⟩ := fields
  obtain ⟨rfl, hdomain, hresource, e, he, rfl⟩ := h
  have hhost : ∀ c ∈ host, isHost c = true := fun c hc => isHost_iff.mpr (hdomain c hc)
  let s := Slot.method.taken host.length (Slot.protocol.taken prefixed.length Progress.zero)
  have hstream : s.request.streamSize = (prefixed ++ host).length := by
    simp [s, Slot.taken, Slot.put, Progress.advance, Progress.zero, Request.zero]
  have hmethod : Selects (prefixed ++ (host ++ (resource ++ e.bytes))) s.request.method host := by
    have hmiddle := Selects.middle prefixed host (resource ++ e.bytes)
    simpa [s, Slot.taken, Slot.put, Progress.advance, Progress.zero, Request.zero] using hmiddle
  have hfront : Selects (prefixed ++ (host ++ (resource ++ e.bytes))) s.request.protocol prefixed :=
    .middle [] prefixed _
  rcases hresource with rfl | ⟨path, rfl, hpath⟩
  · obtain ⟨hm, hr, hp, hremaining⟩ := s.close_fields e
    have hend := s.close_state he
    refine ⟨_, hend, hremaining, ⟨hm ▸ hmethod, hr ▸ .nothing _, hp ▸ hfront⟩,
      (geminiLine_iff hprotocol hend).mpr ⟨host, hhost, .inl ⟨e, he, rfl, rfl⟩⟩⟩
  · obtain ⟨hm, hr, hp, hremaining⟩ := (Slot.resource.taken (1 + path.length) s).close_fields e
    have hend := (Slot.resource.taken (1 + path.length) s).close_state he
    refine ⟨_, hend, hremaining, ⟨hm ▸ hmethod, ?_, hp ▸ hfront⟩,
      (geminiLine_iff hprotocol hend).mpr ⟨host, hhost, .inr ⟨path, hpath, e, he, rfl, rfl⟩⟩⟩
    have hmiddle := Selects.middle (prefixed ++ host) (47 :: path) e.bytes
    have hlocation : (Slot.resource.taken (1 + path.length) s).request.resource
        = ⟨(prefixed ++ host).length, (47 :: path).length⟩ := by
      rw [← hstream, List.length_cons, Nat.add_comm path.length]
      rfl
    rw [hr, hlocation]
    simpa only [List.append_assoc] using hmiddle

theorem geminiLine_of_consumes {protocol : List UInt8} {t : Progress} (hprotocol : protocol ≠ [])
    (ht : t.parser.state = .end) (h : Consumes (parserParseGeminiLikeStep protocol) Progress.bump
      w (Progress.zero.begin .waitProtocolEnd) t) : ∃ fields, GeminiLine protocol w fields := by
  obtain ⟨host, hhost, h⟩ := (geminiLine_iff hprotocol ht).mp h
  have hhost : ∀ c ∈ host, isDomain c = true ∨ c = 58 := fun c hc => isHost_iff.mp (hhost c hc)
  obtain ⟨e, he, rfl, -⟩ | ⟨path, hpath, e, he, rfl, -⟩ := h
  · exact ⟨⟨host, [], protocol⟩, rfl, hhost, .inl rfl, e, he, rfl⟩
  · exact ⟨⟨host, 47 :: path, protocol⟩, rfl, hhost, .inr ⟨path, rfl, hpath⟩, e, he, rfl⟩

theorem PlainStep.geminiLine {protocol : List UInt8} (hprotocol : protocol ≠ [])
    (hfunction : ∀ lookup, parserFunction acceptingSocket lookup
      = parsePart .waitProtocolEnd (parserParseGeminiLikeStep protocol))
    (hw : w.length < maxRequestSize) (hr : Delivers w 0 rings) :
    ((∃ s, parserParses acceptingSocket rings Progress.zero = .ok () s ∧ EndsLine acceptingSocket w s) ↔
      ∃ fields, GeminiLine protocol w fields) ∧
    ∀ s fields, parserParses acceptingSocket rings Progress.zero = .ok () s →
      EndsLine acceptingSocket w s → GeminiLine protocol w fields →
        SelectsFields w s.request fields := by
  have hp : PlainStep (parserParseGeminiLikeStep protocol) := parserParseGeminiLikeStep_plain protocol
  exact hp.line .waitProtocolEnd (by decide) (by decide) (by decide) hfunction hw hr
    (geminiLine_of_consumes hprotocol) (GeminiLine.consumes hprotocol)

/-! ## The languages -/

/-- Whatever pieces a request of a protocol with one line arrives in, its parser ends exactly behind
its last byte when it is a line of the protocol, and then has found the fields of the line. -/
theorem parserParses_line (hprotocol : IsLineProtocol acceptingSocket)
    (hw : w.length < maxRequestSize) (hr : Delivers w 0 rings) :
    ((∃ s, parserParses acceptingSocket rings Progress.zero = .ok () s ∧ EndsLine acceptingSocket w s) ↔
      ∃ fields, LineLanguage acceptingSocket w fields) ∧
    ∀ s fields, parserParses acceptingSocket rings Progress.zero = .ok () s →
      EndsLine acceptingSocket w s → LineLanguage acceptingSocket w fields →
        SelectsFields w s.request fields := by
  cases hcase : acceptingSocketProtocol acceptingSocket with
  | gopher | nex =>
    have hp : PlainStep parserParseGopherStep := parserParseGopherStep_plain
    have hfunction : ∀ lookup, parserFunction acceptingSocket lookup
        = parsePart .waitResourceEnd parserParseGopherStep := by
      intro lookup
      rw [parserFunction, hcase]
      rfl
    simp only [LineLanguage, hcase]
    exact hp.line .waitResourceEnd (by decide) (by decide) (by decide) hfunction hw hr
      gopherLine_of_consumes GopherLine.consumes
  | gemini | text | guppy =>
    simp only [LineLanguage, hcase]
    refine PlainStep.geminiLine (by decide) (fun lookup => ?_) hw hr
    rw [parserFunction, hcase]
    rfl
  | spartan =>
    have hfunction : ∀ lookup, parserFunction acceptingSocket lookup
        = parsePart .waitMethodEnd (parserParseSpartanStep lookup) := by
      intro lookup
      rw [parserFunction, hcase]
      rfl
    simp only [LineLanguage, hcase]
    refine parserParseSpartanStep_resumes.line hfunction hw hr (Progress.zero_within _) ?_
      (spartanLine_of_consumes hw.le) (SpartanLine.consumes hw.le)
    intro t header cs hnone hconsumes hstate
    rw [hnone hcase]
    exact AwaitsContent.consumes (fun h => absurd h (by decide)) hconsumes hstate
  | http | https | finger => simp [IsLineProtocol, hcase] at hprotocol

/-- A request of Spartan, and its fields. -/
def lineRequest : List UInt8 := ascii "h /p 0\r\n"

def lineFields : LineFields := ⟨ascii "h", ascii "/p", []⟩

/-- A block of sixteen bytes that holds the first `n` bytes of the request. -/
def lineRing (n : ℕ) : Ring :=
  ⟨lineRequest.take n ++ List.replicate (16 - n) 0, n, 16, 0⟩

/-- Cut in its path, the request is parsed to its end, and its host and its path are found. -/
theorem parserParses_line_spartan :
    ∃ s, parserParses 10 [lineRing 3, lineRing 8] Progress.zero = .ok () s ∧
      EndsLine 10 lineRequest s ∧ SelectsFields lineRequest s.request lineFields := by
  have hspelling : SpartanSpelling lineRequest lineFields 1 1 1 .crlf :=
    ⟨rfl, List.all_eq_true.mp (by rfl), by decide, List.all_eq_true.mp (by rfl), by decide, by decide,
      by decide, by decide, by decide⟩
  have hfields : LineLanguage 10 lineRequest lineFields := ⟨1, 1, 1, .crlf, hspelling⟩
  have hdelivers : Delivers lineRequest 0 [lineRing 3, lineRing 8] :=
    ⟨⟨rfl, by decide, by decide⟩, by decide, by decide,
      ⟨rfl, by decide, by decide⟩, by decide, by decide, rfl⟩
  have hprotocol : IsLineProtocol 10 := by
    rw [IsLineProtocol]
    decide
  obtain ⟨haccepts, hselects⟩ := parserParses_line hprotocol (by decide) hdelivers
  obtain ⟨s, hparses, hend⟩ := haccepts.mpr ⟨lineFields, hfields⟩
  exact ⟨s, hparses, hend, hselects s lineFields hparses hend hfields⟩

end

end Twinkleshine
