import Twinkleshine.Parser.Grammar

/-!
# Every well-formed HTTP request is accepted

The parser is followed over the pieces of a request: its words, its header fields and its line ends.
Each piece is consumed wherever the parts of the stream end, so the theorems of this module hold of
every delivery.
-/

namespace Twinkleshine

open Library

/-- The HTTP parser counts all of the bytes. -/
abbrev HttpConsumes (lookup : Lookup) : List UInt8 → Progress → Progress → Prop :=
  Consumes (parserParseHttpStep lookup) Progress.bump

/-- `n` bytes more are counted. -/
def Progress.advance (n : ℕ) (s : Progress) : Progress :=
  { s with request.streamSize := s.request.streamSize + n }

/-! ## Words -/

/-- What the parser records the location of. -/
inductive Slot where
  | method
  | resource
  | protocol
  | name
  | value
deriving DecidableEq, Repr

namespace Slot

/-- The characters of the word. -/
def flag : Slot → UInt8
  | method => cmMethod
  | resource => cmResource
  | protocol => cmProtocol
  | name => cmName
  | value => cmValue

/-- The state in which the word is read. -/
def state : Slot → ParserState
  | method => .waitMethodEnd
  | resource => .waitResourceEnd
  | protocol => .waitProtocolEnd
  | name => .waitNameEnd
  | value => .waitValueEnd

/-- Where the location is kept. -/
def put (slot : Slot) (location : ValueLocation) (s : Progress) : Progress :=
  match slot with
  | method => { s with request.method := location }
  | resource => { s with request.resource := location }
  | protocol => { s with request.protocol := location }
  | name => { s with parser.currentName := location }
  | value => { s with parser.currentValue := location }

/-- The word was begun after the bytes of `s`, and `n` bytes of it are counted. -/
def taken (slot : Slot) (n : ℕ) (s : Progress) : Progress :=
  ({ slot.put ⟨s.request.streamSize, n⟩ s with parser.state := slot.state } : Progress).advance n

end Slot

section

variable {lookup : Lookup} {slot : Slot} {s : Progress}

/-- One character more of a word. -/
theorem consumes_character {c : UInt8} (hc : isClass slot.flag c = true) (n : ℕ) (s : Progress) :
    HttpConsumes lookup [c] (slot.taken n s) (slot.taken (n + 1) s) := by
  have hstep : ∀ available, parserParseHttpStep lookup available c (slot.taken n s) = .ok .next
      (({ slot.put ⟨s.request.streamSize, n + 1⟩ s with parser.state := slot.state } :
        Progress).advance n) := by
    intro available
    cases slot with
    | value =>
      simp only [Slot.flag] at hc
      simp only [parserParseHttpStep, Slot.taken, Slot.state, Slot.put, Progress.advance, hc, if_true]
    | _ =>
      simp only [Slot.flag] at hc
      have hspace : isClass cmSpace c = false := not_space_of_class (by simp) hc
      simp only [parserParseHttpStep, Slot.taken, Slot.state, Slot.put, Progress.advance, hc, hspace,
        Bool.false_eq_true, if_false, if_true]
  exact .single hstep

/-- The rest of a word. -/
theorem consumes_characters {cs : List UInt8} (hcs : ∀ c ∈ cs, isClass slot.flag c = true) (n : ℕ)
    (s : Progress) : HttpConsumes lookup cs (slot.taken n s) (slot.taken (n + cs.length) s) := by
  induction cs generalizing n with
  | nil => exact .nil _
  | cons c cs ih =>
    rw [List.forall_mem_cons] at hcs
    rw [List.length_cons, show n + (cs.length + 1) = n + 1 + cs.length by omega]
    exact (consumes_character hcs.1 n s).append (ih hcs.2 (n + 1))

/-- A word, after its first character is known to start it. -/
theorem consumes_token {token : List UInt8} (htoken : IsToken slot.flag token) {s t : Progress}
    (hfirst : ∀ c, isClass slot.flag c = true → HttpConsumes lookup [c] s (slot.taken 1 t)) :
    HttpConsumes lookup token s (slot.taken token.length t) := by
  obtain ⟨hne, hall⟩ := htoken
  obtain ⟨c, cs, rfl⟩ := List.exists_cons_of_ne_nil hne
  rw [List.forall_mem_cons] at hall
  rw [List.length_cons, Nat.add_comm]
  exact (hfirst c hall.1).append (consumes_characters hall.2 1 t)

/-! ## The request line -/

/-- The state in which a word of the request line is waited for. -/
def Slot.waiting : Slot → ParserState
  | method => .waitMethodBegin
  | resource => .waitResourceBegin
  | protocol => .waitProtocolBegin
  | name => .waitNameBegin
  | value => .waitValueEnd

/-- A word of the request line. -/
theorem consumes_word {token : List UInt8}
    (hslot : slot = .method ∨ slot = .resource ∨ slot = .protocol)
    (htoken : IsToken slot.flag token) {s : Progress} (hs : s.parser.state = slot.waiting) :
    HttpConsumes lookup token s (slot.taken token.length s) := by
  refine consumes_token htoken fun c hc => ?_
  have hstep : ∀ available, parserParseHttpStep lookup available c s = .ok .next
      { slot.put ⟨s.request.streamSize, 1⟩ s with parser.state := slot.state } := by
    intro available
    obtain rfl | rfl | rfl := hslot <;>
    · simp only [Slot.flag, Slot.waiting] at hc hs
      have hspace : isClass cmSpace c = false := not_space_of_class (by simp) hc
      simp only [parserParseHttpStep, hs, hc, hspace, Bool.false_eq_true, if_false, if_true,
        Slot.put, Slot.state]
  exact .single hstep

/-- The space behind a word. -/
theorem consumes_space {n : ℕ} {next : ParserState} (s : Progress)
    (hslot : slot = .method ∧ next = .waitResourceBegin ∨ slot = .resource ∧ next = .waitProtocolBegin) :
    HttpConsumes lookup [32] (slot.taken n s)
      (({ slot.taken n s with parser.state := next } : Progress).advance 1) := by
  have hspace : isClass cmSpace 32 = true := by decide
  have hstep : ∀ available, parserParseHttpStep lookup available 32 (slot.taken n s) = .ok .next
      { slot.taken n s with parser.state := next } := by
    intro available
    obtain ⟨rfl, rfl⟩ | ⟨rfl, rfl⟩ := hslot <;>
      simp only [parserParseHttpStep, Slot.taken, Slot.state, Slot.put, Progress.advance, hspace,
        if_true]
  exact .single hstep

/-! ## Line ends -/

/-- The parser is at the start of a line. After a bare CR it does not know yet that no LF follows,
unless an earlier line has ended so. -/
def LineEnd.AtLine (e : LineEnd) (parser : Parser) : Prop :=
  parser.state = .waitNameBegin ∧ parser.toleratedCr = (e == .cr) ∨
    e = .cr ∧ parser.state = .waitLineLf

/-- A line end leads from `s` to the start of a line; what it does besides is that of `u`. -/
def ConsumesLineEnd (lookup : Lookup) (e : LineEnd) (s u : Progress) : Prop :=
  ∃ t, HttpConsumes lookup e.bytes s t ∧ e.AtLine t.parser ∧
    t.request = (u.advance e.bytes.length).request ∧
    t.parser.remainingContent = u.parser.remainingContent

/-- The classes of the line end characters and of the colon. -/
theorem isClass_separator :
    isClass cmSpace 13 = false ∧ isClass cmSpace 10 = false ∧ isClass cmSpace 58 = false ∧
    isClass cmName 13 = false ∧ isClass cmName 10 = false ∧ isClass cmName 58 = false ∧
    isClass cmProtocol 13 = false ∧ isClass cmProtocol 10 = false ∧
    isClass cmValue 13 = false ∧ isClass cmValue 10 = false ∧
    isClass cmNewline 13 = true ∧ isClass cmNewline 10 = true := by
  decide

/-- The LF of a CRLF. -/
theorem consumes_lf {s : Progress} (hs : s.parser.state = .waitLineLf) :
    HttpConsumes lookup [10] s (({ s with parser.state := .waitNameBegin } : Progress).advance 1) := by
  have hclass := isClass_separator
  have hstep : ∀ available, parserParseHttpStep lookup available 10 s = .ok .next
      { s with parser.state := .waitNameBegin } := fun available => by
    simp [parserParseHttpStep, hs, hclass]
  exact .single hstep

/-- The end of the request line. -/
theorem consumes_requestLineEnd (e : LineEnd) {s : Progress} (hs : s.parser.state = .waitProtocolEnd)
    (hcr : s.parser.toleratedCr = false) : ConsumesLineEnd lookup e s s := by
  have hclass := isClass_separator
  have hstep13 : ∀ available, parserParseHttpStep lookup available 13 s = .ok .next
      { s with parser.state := .waitLineLf } := fun available => by
    simp [parserParseHttpStep, hs, hclass]
  have hstep10 : ∀ available, parserParseHttpStep lookup available 10 s = .ok .next
      { s with parser.toleratedLf := true, parser.state := .waitNameBegin } := fun available => by
    simp [parserParseHttpStep, hs, hclass]
  cases e with
  | crlf =>
    exact ⟨_, Consumes.append (.single hstep13) (consumes_lf rfl), .inl ⟨rfl, hcr⟩, rfl, rfl⟩
  | lf => exact ⟨_, .single hstep10, .inl ⟨rfl, hcr⟩, rfl, rfl⟩
  | cr => exact ⟨_, .single hstep13, .inr ⟨rfl, rfl⟩, rfl, rfl⟩

/-- The end of a header field, when its name and value do what makes `u` of `s`. -/
theorem consumes_headerEnd (e : LineEnd) {s u : Progress} (hs : s.parser.state = .waitValueEnd)
    (hcr : u.parser.toleratedCr = (e == .cr))
    (hu : parserParseHttpNameValue lookup s = .ok () u) : ConsumesLineEnd lookup e s u := by
  have hclass := isClass_separator
  have hstep : ∀ c, isClass cmNewline c = true → isClass cmValue c = false → ∀ available,
      parserParseHttpStep lookup available c s = .ok .next
        (if c = 13 then
          { u with parser.state := if e = .cr then .waitNameBegin else .waitLineLf }
        else { u with parser.toleratedLf := true, parser.state := .waitNameBegin }) := by
    intro c hnewline hvalue available
    simp only [parserParseHttpStep, hs, hvalue, hnewline, Bool.false_eq_true, if_false, if_true, hu,
      Outcome.andThen_ok, hcr]
    cases e <;> split_ifs <;> simp_all
  have hstep13 := hstep 13 (by decide) (by decide)
  have hstep10 := hstep 10 (by decide) (by decide)
  cases e with
  | crlf =>
    exact ⟨_, Consumes.append (.single hstep13) (consumes_lf rfl), .inl ⟨rfl, hcr⟩, rfl, rfl⟩
  | lf => exact ⟨_, .single hstep10, .inl ⟨rfl, hcr⟩, rfl, rfl⟩
  | cr => exact ⟨_, .single hstep13, .inl ⟨rfl, hcr⟩, rfl, rfl⟩

/-- The empty line behind the header fields. -/
theorem consumes_emptyLine (e : LineEnd) {s : Progress} (hs : e.AtLine s.parser) :
    ∃ t, HttpConsumes lookup e.bytes s t ∧ t.parser.state = s.parser.contentOrEnd ∧
      t.parser.remainingContent = s.parser.remainingContent ∧
      t.request = (s.advance e.bytes.length).request := by
  have hclass := isClass_separator
  obtain ⟨hstate, hcr⟩ | ⟨rfl, hstate⟩ := hs
  · cases e with
    | crlf =>
      have hstep13 : ∀ available, parserParseHttpStep lookup available 13 s = .ok .next
          { s with parser.state := .waitFinalLineLf } := fun available => by
        simp [parserParseHttpStep, hstate, hclass, hcr]
      have hstep10 : ∀ available, parserParseHttpStep lookup available 10
          (({ s with parser.state := .waitFinalLineLf } : Progress).bump) = .ok .next
          (({ s with parser.state := s.parser.contentOrEnd } : Progress).bump) := fun available => by
        simp [parserParseHttpStep, Progress.bump, Parser.contentOrEnd]
      exact ⟨_, Consumes.append (.single hstep13) (.single hstep10), rfl, rfl, rfl⟩
    | lf =>
      have hstep : ∀ available, parserParseHttpStep lookup available 10 s = .ok .next
          { s with parser.toleratedLf := true, parser.state := s.parser.contentOrEnd } :=
        fun available => by simp [parserParseHttpStep, hstate, hclass, hcr]
      exact ⟨_, .single hstep, rfl, rfl, rfl⟩
    | cr =>
      have hstep : ∀ available, parserParseHttpStep lookup available 13 s = .ok .next
          { s with parser.state := s.parser.contentOrEnd } :=
        fun available => by simp [parserParseHttpStep, hstate, hclass, hcr]
      exact ⟨_, .single hstep, rfl, rfl, rfl⟩
  · have hstep : ∀ available, parserParseHttpStep lookup available 13 s = .ok .next
        { s with parser.toleratedCr := true, parser.state := s.parser.contentOrEnd } :=
      fun available => by simp [parserParseHttpStep, hstate, hclass]
    exact ⟨_, .single hstep, rfl, rfl, rfl⟩

/-! ## Header fields -/

/-- What a header field does. -/
def Header.apply (header : Header) (s : Progress) : Progress :=
  if header.Is "content-length" then
    { s with parser.remainingContent := decimalValue (trimBytes header.value) }
  else if header.Is "connection" then
    { s with request.keepAlive := s.request.keepAlive || hasKeepAlive header.value }
  else if header.Is "user-agent" then { s with request.user := s.parser.currentValue }
  else if header.Is "accept-language" then
    { s with request.language := parserParseHttpLanguage Float ⟨header.value, []⟩ }
  else s

/-- A field has one name only. -/
theorem Header.Is.unique {header : Header} {name name' : String} (h : header.Is name)
    (h' : header.Is name') : ascii name = ascii name' := h.symm.trans h'

/-- A field changes the request in `keep_alive`, `user` and `language` only. -/
theorem Header.apply_request (header : Header) (s : Progress) :
    (header.apply s).request = { s.request with
      keepAlive := s.request.keepAlive || header.keepsAlive
      user := if header.Is "user-agent" then s.parser.currentValue else s.request.user
      language := (header.apply s).request.language } := by
  have hlength : header.Is "content-length" → ¬ header.Is "connection" ∧ ¬ header.Is "user-agent" :=
    fun h => ⟨fun h' => absurd (h.unique h') (by decide), fun h' => absurd (h.unique h') (by decide)⟩
  have hconnection : header.Is "connection" → ¬ header.Is "user-agent" :=
    fun h h' => absurd (h.unique h') (by decide)
  simp only [Header.apply, Header.keepsAlive]
  split_ifs <;> simp_all

theorem Header.apply_remainingContent (header : Header) (s : Progress) :
    (header.apply s).parser.remainingContent
      = header.contentLength.getD s.parser.remainingContent := by
  simp only [Header.apply, Header.contentLength]
  split_ifs <;> rfl

/-- The parser does with the name and the value it looks up what the field does. -/
theorem parserParseHttpNameValue_eq {header : Header} (h : header.WellFormed) {name value : ConstantValue}
    (hname : lookup s.parser.currentName = .ok name) (hnbytes : name.bytes = header.name)
    (hvalue : lookup s.parser.currentValue = .ok value) (hvbytes : value.bytes = header.value)
    (hfit : ∀ n, header.contentLength = some n →
      s.parser.currentValue.limit + n ≤ maxRequestSize) :
    parserParseHttpNameValue lookup s = .ok () (header.apply s) := by
  have his : ∀ text : String, valueCompareCaseMem name (ascii text) = decide (header.Is text) := by
    intro text
    rw [Bool.eq_iff_iff, valueCompareCaseMem_iff, hnbytes, decide_eq_true_iff]
    rfl
  have hmax : maxRequestSize = 1048576 := rfl
  simp only [parserParseHttpNameValue, hname, hvalue, his, decide_eq_true_eq, Header.apply]
  split_ifs with hlength hconnection huser hlanguage
  · have hnumber := hfit _ (if_pos hlength)
    simp only [ValueLocation.limit] at hnumber
    have huint : valueToUint (valueTrim value) = some (decimalValue (trimBytes header.value)) := by
      rw [valueToUint_eq, valueTrim_bytes, hvbytes]
      exact valueToUintPart_eq (h.decimal hlength).digits
        (show decimalValue (trimBytes header.value) ≤ _ by omega)
    simp only [huint]
    rw [sizeAdd_eq (show s.parser.currentValue.offset + s.parser.currentValue.size < 2 ^ 64 by omega),
      sizeAdd_eq (by omega), if_pos hnumber]
  · rw [connectionKeepAlive_eq (by rw [valueSize_eq]), hvbytes]
    cases hasKeepAlive header.value <;> simp
  · rfl
  · rw [parserParseHttpLanguage_congr (show value.bytes = (⟨header.value, []⟩ : ConstantValue).bytes by
      rw [hvbytes, ConstantValue.bytes, List.append_nil])]
  · rfl

/-- A segment in the middle of a stream. -/
theorem segment_middle (xs ys zs : List UInt8) :
    segment (xs ++ ys ++ zs) ⟨xs.length, ys.length⟩ false = ys := by
  simp [segment, ValueLocation.start, List.append_assoc]

/-- The location a header field is looked up at, after the bytes of `s`. -/
def Header.read (e : LineEnd) (header : Header) (s : Progress) : Progress :=
  Slot.value.taken header.value.length ((Slot.name.taken header.name.length
    { s with parser.toleratedCr := (e == .cr) }).advance 1)

/-- The name, the colon and the value of a header field. -/
theorem consumes_nameValue {header : Header} (h : header.WellFormed) {e : LineEnd}
    (hs : e.AtLine s.parser) :
    HttpConsumes lookup (header.name ++ 58 :: header.value) s (header.read e s) := by
  have hclass := isClass_separator
  have hname : HttpConsumes lookup header.name s (Slot.name.taken header.name.length
      { s with parser.toleratedCr := (e == .cr) }) := by
    refine @consumes_token lookup .name _ h.name _ _ fun c hc => ?_
    have hspace : isClass cmSpace c = false := not_space_of_class (.inr (.inr (.inr rfl))) hc
    simp only [Slot.flag] at hc
    have hstep : ∀ available, parserParseHttpStep lookup available c s = .ok .next
        { Slot.name.put ⟨s.request.streamSize, 1⟩
          { s with parser.toleratedCr := (e == .cr) } with
          parser.state := Slot.name.state } := by
      intro available
      obtain ⟨hstate, hcr⟩ | ⟨rfl, hstate⟩ := hs
      · simp [parserParseHttpStep, hstate, hc, hspace, ← hcr, Slot.put, Slot.state]
      · simp [parserParseHttpStep, hstate, hc, hspace, Slot.put, Slot.state]
    exact .single hstep
  have hcolon : ∀ t : Progress, HttpConsumes lookup [58] (Slot.name.taken header.name.length t)
      (Slot.value.taken 0 ((Slot.name.taken header.name.length t).advance 1)) := by
    intro t
    have hstep : ∀ available, parserParseHttpStep lookup available 58
        (Slot.name.taken header.name.length t) = .ok .next
        { Slot.name.taken header.name.length t with
          parser.currentValue := ⟨t.request.streamSize + header.name.length + 1, 0⟩
          parser.state := .waitValueEnd } := fun available => by
      simp [parserParseHttpStep, Slot.taken, Slot.put, Slot.state, Progress.advance, hclass]
    exact .single hstep
  have hvalue := @consumes_characters lookup .value _ h.value 0
    ((Slot.name.taken header.name.length { s with parser.toleratedCr := (e == .cr) }).advance 1)
  rw [Nat.zero_add] at hvalue
  exact hname.append ((hcolon _).append hvalue)

/-- A header field and its line end. -/
theorem consumes_header {header : Header} (h : header.WellFormed) {e : LineEnd}
    (hs : e.AtLine s.parser) {v : List UInt8} (hv : s.request.streamSize = v.length)
    (hreads : Reads lookup (v ++ header.render e))
    (hfit : ∀ n, header.contentLength = some n →
      v.length + header.name.length + 1 + header.value.length + n ≤ maxRequestSize) :
    ∃ t, HttpConsumes lookup (header.render e) s t ∧ e.AtLine t.parser ∧
      t.request = ((header.apply (header.read e s)).advance e.bytes.length).request ∧
      t.parser.remainingContent = (header.apply (header.read e s)).parser.remainingContent := by
  set p := header.read e s with hp
  -- name and value are looked up where they were read
  have hnameloc : p.parser.currentName = ⟨v.length, header.name.length⟩ := by
    rw [← hv]
    rfl
  have hvalueloc : p.parser.currentValue
      = ⟨v.length + header.name.length + 1, header.value.length⟩ := by
    rw [← hv]
    rfl
  have hwhole : v ++ header.render e = v ++ header.name ++ (58 :: header.value ++ e.bytes) := by
    simp [Header.render]
  have hwhole' : v ++ header.render e = (v ++ header.name ++ [58]) ++ header.value ++ e.bytes := by
    simp [Header.render]
  obtain ⟨name, hname, hnbytes⟩ := hreads p.parser.currentName (by
    rw [hnameloc, hwhole]
    simp only [ValueLocation.limit, List.length_append]
    omega)
  obtain ⟨value, hvalue, hvbytes⟩ := hreads p.parser.currentValue (by
    rw [hvalueloc, hwhole']
    simp only [ValueLocation.limit, List.length_append, List.length_cons, List.length_nil]
    omega)
  rw [hnameloc, hwhole, segment_middle] at hnbytes
  have hstart : v.length + header.name.length + 1 = (v ++ header.name ++ [58]).length := by
    rw [List.length_append, List.length_append]
    rfl
  rw [hvalueloc, hwhole', hstart, segment_middle] at hvbytes
  -- so what is applied is this header
  have happly : parserParseHttpNameValue lookup p = .ok () (header.apply p) := by
    refine parserParseHttpNameValue_eq h hname hnbytes hvalue hvbytes fun n hn => ?_
    rw [hvalueloc]
    exact hfit n hn
  have hcr : (header.apply p).parser.toleratedCr = (e == .cr) := by
    simp only [Header.apply]
    split_ifs <;> rfl
  obtain ⟨t, ht, hline, hrequest, hremaining⟩ := consumes_headerEnd e rfl hcr happly
  refine ⟨t, ?_, hline, hrequest, hremaining⟩
  exact (consumes_nameValue h hs).append ht

/-! ## All header fields -/

theorem lastValue_concat {α : Type} (f : Header → Option α) (headers : List Header)
    (header : Header) :
    lastValue f (headers ++ [header]) = (f header).or (lastValue f headers) := by
  rw [lastValue, lastValue, List.filterMap_append]
  cases hf : f header <;> simp [hf]

/-- After the request line and the fields `done`, of which the bytes are `v`. -/
structure HeadersRead (e : LineEnd) (r : HttpRequest) (done : List Header) (v : List UInt8)
    (s : Progress) : Prop where
  atLine : e.AtLine s.parser
  streamSize : s.request.streamSize = v.length
  method : s.request.method = ⟨0, r.method.length⟩
  resource : s.request.resource = ⟨r.method.length + 1, r.resource.length⟩
  protocol : s.request.protocol
    = ⟨r.method.length + 1 + r.resource.length + 1, r.protocol.length⟩
  keepAlive : s.request.keepAlive = done.any Header.keepsAlive
  user_le : s.request.user.limit ≤ v.length
  user : segment v s.request.user false = (lastValue Header.userAgent done).getD []
  remaining : s.parser.remainingContent = (lastValue Header.contentLength done).getD 0

/-- One field more. -/
theorem HeadersRead.step {e : LineEnd} {r : HttpRequest} {done : List Header} {v : List UInt8}
    (hs : HeadersRead e r done v s) {header : Header} (h : header.WellFormed)
    (hreads : Reads lookup (v ++ header.render e))
    (hfit : ∀ n, header.contentLength = some n →
      v.length + header.name.length + 1 + header.value.length + n ≤ maxRequestSize) :
    ∃ t, HttpConsumes lookup (header.render e) s t ∧
      HeadersRead e r (done ++ [header]) (v ++ header.render e) t := by
  obtain ⟨t, ht, hline, hrequest, hremaining⟩ := consumes_header h hs.atLine hs.streamSize hreads hfit
  set p := header.read e s with hp
  have hlength : (header.render e).length
      = header.name.length + 1 + header.value.length + e.bytes.length := by
    simp only [Header.render, List.length_append, List.length_cons]
    omega
  have hpsize : p.request.streamSize = s.request.streamSize + header.name.length + 1
      + header.value.length := rfl
  have hprequest : p.request = { s.request with streamSize := p.request.streamSize } := rfl
  have hpvalue : p.parser.currentValue
      = ⟨s.request.streamSize + header.name.length + 1, header.value.length⟩ := rfl
  have hpremaining : p.parser.remainingContent = s.parser.remainingContent := rfl
  rw [Progress.advance, header.apply_request, hprequest] at hrequest
  rw [header.apply_remainingContent, hpremaining] at hremaining
  have hv := hs.streamSize
  -- only the fields that are known change the request
  have huser : t.request.user
      = if header.Is "user-agent" then p.parser.currentValue else s.request.user := by
    rw [hrequest]
  refine ⟨t, ht, hline, ?_, ?_, ?_, ?_, ?_, ?_, ?_, ?_⟩
  · rw [hrequest, List.length_append, hlength]
    simp only [hpsize]
    omega
  · rw [hrequest]
    exact hs.method
  · rw [hrequest]
    exact hs.resource
  · rw [hrequest]
    exact hs.protocol
  · rw [hrequest, List.any_append]
    simp [hs.keepAlive]
  · rw [huser, List.length_append, hlength]
    have hle := hs.user_le
    split_ifs
    · rw [hpvalue]
      simp only [ValueLocation.limit]
      omega
    · omega
  · rw [huser, lastValue_concat, Header.userAgent]
    split_ifs with hagent
    · have hwhole : v ++ header.render e = (v ++ header.name ++ [58]) ++ header.value ++ e.bytes := by
        simp [Header.render]
      have hstart : s.request.streamSize + header.name.length + 1
          = (v ++ header.name ++ [58]).length := by
        rw [hv, List.length_append, List.length_append]
        rfl
      rw [hpvalue, hwhole, hstart, segment_middle]
      rfl
    · rw [segment_append hs.user_le, hs.user]
      rfl
  · rw [hremaining, hs.remaining, lastValue_concat]
    cases header.contentLength <;> rfl

/-- All of the fields. -/
theorem HeadersRead.run {e : LineEnd} {r : HttpRequest} {done headers : List Header}
    {v : List UInt8} (hs : HeadersRead e r done v s) (h : ∀ header ∈ headers, header.WellFormed)
    (hreads : Reads lookup (v ++ headers.flatMap (Header.render e)))
    (hfit : SizesFit e v.length headers) :
    ∃ t, HttpConsumes lookup (headers.flatMap (Header.render e)) s t ∧
      HeadersRead e r (done ++ headers) (v ++ headers.flatMap (Header.render e)) t := by
  induction headers generalizing done v s with
  | nil => exact ⟨s, .nil s, by simpa using hs⟩
  | cons header headers ih =>
    rw [List.forall_mem_cons] at h
    rw [List.flatMap_cons, ← List.append_assoc] at hreads
    obtain ⟨t, ht, hread⟩ := hs.step h.1 hreads.of_append hfit.1
    obtain ⟨u, hu, hrest⟩ := ih hread h.2 hreads (by rw [List.length_append]; exact hfit.2)
    refine ⟨u, ht.append hu, ?_⟩
    rwa [List.append_assoc, List.append_assoc, List.singleton_append] at hrest

/-! ## Whole requests -/

/-- The request line. -/
theorem HttpRequest.WellFormed.requestLine_read {e : LineEnd} {r : HttpRequest} (h : r.WellFormed e) :
    ∃ t, HttpConsumes lookup (r.requestLine e) (Progress.zero.begin .waitMethodBegin) t ∧
      HeadersRead e r [] (r.requestLine e) t := by
  set start := Progress.zero.begin .waitMethodBegin with hstart
  -- the three words, and a space behind each of the first two
  have hmethod := @consumes_word lookup .method _ (.inl rfl) h.method start rfl
  have hspace := @consumes_space lookup .method r.method.length .waitResourceBegin start
    (.inl ⟨rfl, rfl⟩)
  set s1 := ({ Slot.method.taken r.method.length start with
    parser.state := .waitResourceBegin } : Progress).advance 1 with hs1
  have hresource := @consumes_word lookup .resource _ (.inr (.inl rfl)) h.resource s1 rfl
  have hspace' := @consumes_space lookup .resource r.resource.length .waitProtocolBegin s1
    (.inr ⟨rfl, rfl⟩)
  set s2 := ({ Slot.resource.taken r.resource.length s1 with
    parser.state := .waitProtocolBegin } : Progress).advance 1 with hs2
  have hprotocol := @consumes_word lookup .protocol _ (.inr (.inr rfl)) h.protocol s2 rfl
  obtain ⟨t, ht, hline, hrequest, hremaining⟩ := consumes_requestLineEnd e
    (show (Slot.protocol.taken r.protocol.length s2).parser.state = .waitProtocolEnd from rfl)
    (show (Slot.protocol.taken r.protocol.length s2).parser.toleratedCr = false from rfl)
  -- all bytes of the line were counted
  have hsize : t.request.streamSize
      = 0 + r.method.length + 1 + r.resource.length + 1 + r.protocol.length + e.bytes.length := by
    rw [hrequest]
    rfl
  have hlength : (r.requestLine e).length
      = 0 + r.method.length + 1 + r.resource.length + 1 + r.protocol.length + e.bytes.length := by
    simp only [HttpRequest.requestLine, List.length_append, List.length_cons]
    omega
  refine ⟨t, ?_, hline, hsize.trans hlength.symm, ?_, ?_, ?_, ?_, ?_, ?_, ?_⟩
  · have hall := hmethod.append (hspace.append (hresource.append (hspace'.append
      (hprotocol.append ht))))
    simpa [HttpRequest.requestLine] using hall
  · rw [hrequest]
    rfl
  · rw [hrequest]
    show (⟨0 + r.method.length + 1, _⟩ : ValueLocation) = _
    rw [Nat.zero_add]
  · rw [hrequest]
    show (⟨0 + r.method.length + 1 + r.resource.length + 1, _⟩ : ValueLocation) = _
    rw [Nat.zero_add]
  · rw [hrequest]
    rfl
  · rw [hrequest]
    exact Nat.zero_le _
  · rw [hrequest]
    rfl
  · rw [hremaining]
    rfl

/-- After the empty line of a well-formed request. -/
structure HeadRead (e : LineEnd) (r : HttpRequest) (s : Progress) : Prop where
  state : s.parser.state = if r.contentLength > 0 then .waitContent else .end
  streamSize : s.request.streamSize = (r.head e).length
  method : segment (r.head e) s.request.method false = r.method
  resource : segment (r.head e) s.request.resource false = r.resource
  protocol : segment (r.head e) s.request.protocol false = r.protocol
  method_le : s.request.method.limit ≤ (r.head e).length
  resource_le : s.request.resource.limit ≤ (r.head e).length
  protocol_le : s.request.protocol.limit ≤ (r.head e).length
  keepAlive : s.request.keepAlive = r.headers.any Header.keepsAlive
  user_le : s.request.user.limit ≤ (r.head e).length
  user : segment (r.head e) s.request.user false = (lastValue Header.userAgent r.headers).getD []
  remaining : s.parser.remainingContent = r.contentLength

/-- The head of a well-formed request is counted byte by byte. -/
theorem HttpRequest.WellFormed.head_read {e : LineEnd} {r : HttpRequest} (h : r.WellFormed e)
    (hreads : Reads lookup (r.head e)) :
    ∃ s, HttpConsumes lookup (r.head e) (Progress.zero.begin .waitMethodBegin) s ∧
      HeadRead e r s := by
  obtain ⟨t, ht, hread⟩ := @HttpRequest.WellFormed.requestLine_read lookup e r h
  obtain ⟨u, hu, hread⟩ := hread.run h.headers hreads.of_append h.fit
  obtain ⟨s, hs, hstate, hremaining, hrequest⟩ := @consumes_emptyLine lookup e _ hread.atLine
  rw [List.nil_append] at hread
  have hcontent : u.parser.remainingContent = r.contentLength := hread.remaining
  have hhead : r.head e = r.requestLine e ++ r.headers.flatMap (Header.render e) ++ e.bytes := rfl
  -- each word of the request line stands where its location says
  have hm : s.request.method = ⟨([] : List UInt8).length, r.method.length⟩ := by
    rw [hrequest]
    exact hread.method
  have hr : s.request.resource = ⟨(r.method ++ [32]).length, r.resource.length⟩ := by
    rw [hrequest, List.length_append]
    exact hread.resource
  have hp : s.request.protocol
      = ⟨(r.method ++ [32] ++ r.resource ++ [32]).length, r.protocol.length⟩ := by
    rw [hrequest, List.length_append, List.length_append, List.length_append]
    exact hread.protocol
  have hmhead : r.head e = [] ++ r.method ++ (32 :: r.resource ++ 32 :: r.protocol ++ e.bytes
      ++ r.headers.flatMap (Header.render e) ++ e.bytes) := by
    simp [HttpRequest.head, HttpRequest.requestLine]
  have hrhead : r.head e = (r.method ++ [32]) ++ r.resource ++ (32 :: r.protocol ++ e.bytes
      ++ r.headers.flatMap (Header.render e) ++ e.bytes) := by
    simp [HttpRequest.head, HttpRequest.requestLine]
  have hphead : r.head e = (r.method ++ [32] ++ r.resource ++ [32]) ++ r.protocol ++ (e.bytes
      ++ r.headers.flatMap (Header.render e) ++ e.bytes) := by
    simp [HttpRequest.head, HttpRequest.requestLine]
  refine ⟨s, (ht.append hu).append hs, ?_, ?_, ?_, ?_, ?_, ?_, ?_, ?_, ?_, ?_, ?_, ?_⟩
  · rw [hstate, Parser.contentOrEnd, hcontent]
  · rw [hrequest, hhead, List.length_append, ← hread.streamSize]
    rfl
  · rw [hm, hmhead, segment_middle]
  · rw [hr, hrhead, segment_middle]
  · rw [hp, hphead, segment_middle]
  · rw [hm, hmhead]
    simp only [ValueLocation.limit, List.length_append]
    omega
  · rw [hr, hrhead]
    simp only [ValueLocation.limit, List.length_append]
    omega
  · rw [hp, hphead]
    simp only [ValueLocation.limit, List.length_append]
    omega
  · rw [hrequest]
    exact hread.keepAlive
  · rw [hrequest, hhead, List.length_append]
    exact hread.user_le.trans (Nat.le_add_right _ _)
  · rw [hrequest, hhead]
    exact (segment_append hread.user_le _).trans hread.user
  · rw [hremaining, hcontent]

/-- What the parser makes of a request. -/
structure ParsedAs (e : LineEnd) (r : HttpRequest) (s : Progress) : Prop where
  ends : s.parser.state = .end
  streamSize : s.request.streamSize = (r.render e).length
  method : segment (r.render e) s.request.method false = r.method
  resource : segment (r.render e) s.request.resource false = r.resource
  protocol : segment (r.render e) s.request.protocol false = r.protocol
  keepAlive : s.request.keepAlive = true ↔
    ∃ header ∈ r.headers, header.Is "connection" ∧ hasKeepAlive header.value = true
  user : segment (r.render e) s.request.user false
    = (lastValue Header.userAgent r.headers).getD []

theorem HeadRead.keepAlive_iff {e : LineEnd} {r : HttpRequest} (h : HeadRead e r s) :
    s.request.keepAlive = true ↔
      ∃ header ∈ r.headers, header.Is "connection" ∧ hasKeepAlive header.value = true := by
  rw [h.keepAlive, List.any_eq_true]
  simp only [Header.keepsAlive, Bool.and_eq_true, decide_eq_true_eq]

/-- A well-formed request is parsed to its end, and to what it says. -/
theorem HttpRequest.WellFormed.parsed {e : LineEnd} {r : HttpRequest} (h : r.WellFormed e)
    (hreads : Reads lookup (r.render e)) :
    ∃ s, parserParseHttp lookup (r.render e) Progress.zero = .ok () s ∧ ParsedAs e r s := by
  obtain ⟨u, hu, hread⟩ := h.head_read hreads.of_append
  have hbody := h.body
  have hlength : (r.render e).length = (r.head e).length + r.body.length := List.length_append
  have hstate := hread.state
  refine ⟨{ u with request.streamSize := (r.render e).length, parser.state := .end }, ?_, rfl, rfl,
    (segment_append hread.method_le _).trans hread.method,
    (segment_append hread.resource_le _).trans hread.resource,
    (segment_append hread.protocol_le _).trans hread.protocol, hread.keepAlive_iff,
    (segment_append hread.user_le _).trans hread.user⟩
  rw [parserParseHttp, parsePart, HttpRequest.render, hu.scan_append]
  cases hcontent : r.body with
  | nil =>
    rw [hcontent, List.length_nil] at hbody hlength
    rw [← hbody, if_neg (lt_irrefl 0)] at hstate
    rw [scan_nil, List.append_nil, ← hread.streamSize, ← hstate]
  | cons c cs =>
    rw [hcontent, List.length_cons] at hbody hlength
    rw [← hbody, if_pos (Nat.succ_pos _)] at hstate
    have hremaining := hread.remaining
    rw [scan, parserParseHttpStep_content.content hstate, Outcome.andThen_ok, parseContent,
      if_pos (by omega), hread.streamSize, hremaining, ← hbody, List.length_append, List.length_cons]

end

/-- A well-formed request in one contiguous part is parsed to its end, and to what it says. -/
theorem parserParseHttp_wellFormed {e : LineEnd} {r : HttpRequest} (h : r.WellFormed e)
    {ring : Ring} (hring : ring.Sound) (hcontent : ringContent ring = r.render e) :
    ∃ s, parserParseHttp (ringLookup ring) (r.render e) Progress.zero = .ok () s ∧
      ParsedAs e r s := by
  have hmax : maxRequestSize = 1048576 := rfl
  have hsize := h.size
  rw [← hcontent, hring.length_content] at hsize
  have hreads := ringLookup_reads hring (show ring.size < 2 ^ 64 by omega)
  rw [hcontent] at hreads
  exact h.parsed hreads

/-- A request with two header fields and a body. -/
def postRequest : HttpRequest where
  method := ascii "POST"
  resource := ascii "/a"
  protocol := ascii "HTTP/1.1"
  headers := [⟨ascii "connection", ascii " x, Keep-Alive"⟩, ⟨ascii "Content-Length", ascii " 2 "⟩]
  body := ascii "hi"

theorem parserParseHttp_wellFormed_post :
    ∃ s, parserParseHttp (ringLookup ⟨postRequest.render .cr, 65, 65, 0⟩) (postRequest.render .cr)
      Progress.zero = .ok () s ∧ ParsedAs .cr postRequest s := by
  refine parserParseHttp_wellFormed ?_ ⟨rfl, by decide, by decide⟩ rfl
  refine ⟨by decide, by decide, by decide, ?_, ?_, by decide, by decide⟩
  · simp only [postRequest, List.forall_mem_cons]
    refine ⟨⟨by decide, List.all_eq_true.mp rfl, fun h => absurd h (by decide)⟩,
      ⟨by decide, List.all_eq_true.mp rfl, fun _ => ⟨1, [50], 1, rfl, by simp, by simp⟩⟩, ?_⟩
    exact fun _ h => absurd h List.not_mem_nil
  · refine ⟨fun n hn => ?_, fun n hn => ?_, trivial⟩
    · exact absurd ((show Header.contentLength _ = none by decide).symm.trans hn) (by simp)
    · obtain rfl : 2 = n := Option.some.inj ((show Header.contentLength _ = some 2 by decide).symm.trans hn)
      decide

end Twinkleshine
