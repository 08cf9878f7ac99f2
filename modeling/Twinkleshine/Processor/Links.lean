import Twinkleshine.Parser.Finger
import Twinkleshine.Processor.Normalize
import Twinkleshine.Processor.PrintNex

/-!
# Following links

Reference: the internal references that the functions `processor_print` print, the parsers of
`source/parser/`, and the part of `processor_generic` in `source/processor/generic.c` that resolves a
resource.

A client that follows an internal reference makes a line of it and sends the line to the same socket. The
line is accepted in whatever pieces it arrives, and resolves to the page and the language the reference was
printed for.
-/

namespace Twinkleshine

open Library

/-! ## Clients -/

/-- What stands behind the scheme of a URL. -/
def urlRest (url : List UInt8) : List UInt8 := (url.dropWhile (· != 58)).drop 3

/-- The host of a URL, without its port. -/
def urlHost (url : List UInt8) : List UInt8 := (urlRest url).takeWhile fun c => c != 47 && c != 58

/-- The path of a URL, with the slash it begins with. -/
def urlPath (url : List UInt8) : List UInt8 := (urlRest url).dropWhile (· != 47)

/-- The line of a client that follows a URL. A client of Spartan asks for the slash where the path is empty
and sends no content, one of Gopher leaves out the slash and the type of the item, and one of Finger the
slash. -/
def urlRequest (protocol : Protocol) (url : List UInt8) : List UInt8 :=
  match protocol with
  | .gemini | .guppy | .text => url ++ crlf
  | .spartan =>
    urlHost url ++ ascii " " ++ (if urlPath url = [] then ascii "/" else urlPath url) ++ ascii " 0" ++ crlf
  | .gopher => (urlPath url).drop 2 ++ crlf
  | .nex => urlPath url ++ crlf
  | .finger => (urlPath url).drop 1 ++ crlf
  | .http | .https => []

/-- The line of a client that follows an internal reference, as the protocol prints it: a selector in
Gopher, a path in Nex, or a URL. -/
def referenceRequest (release : Bool) (acceptingSocket : ℕ) (languages : LinkLanguages) (language : UInt8)
    (resource : List UInt8) : List UInt8 :=
  match acceptingSocketProtocol acceptingSocket with
  | .gemini => urlRequest .gemini (geminiUrl release languages language resource)
  | .guppy => urlRequest .guppy (guppyUrl release languages language resource)
  | .text => urlRequest .text (textUrl release languages language resource)
  | .spartan => urlRequest .spartan (spartanUrl release languages language resource)
  | .finger => urlRequest .finger (fingerUrl release languages language resource)
  | .gopher => resource ++ languages.slash language ++ crlf
  | .nex => nexPath languages language resource ++ crlf
  | .http | .https => []

/-! ## Parsing -/

/-- No character changes the language a client would like. -/
def KeepsLanguage (step : ParserStep) : Prop :=
  ∀ {n : ℕ} {c : UInt8} {s t : Progress}, step n c s = .ok .next t →
    t.request.language = s.request.language

theorem KeepsLanguage.consumes {step : ParserStep} (h : KeepsLanguage step) {cs : List UInt8}
    {s t : Progress} (hconsumes : Consumes step Progress.bump cs s t) :
    t.request.language = s.request.language := by
  induction hconsumes with
  | nil s => rfl
  | cons head tail ih =>
    have hstep := h (head 1)
    exact ih.trans hstep

theorem parserParseGopherStep_keepsLanguage : KeepsLanguage parserParseGopherStep := by
  intro n c s t h
  cases hstate : s.parser.state with
  | _ =>
    simp only [parserParseGopherStep, hstate] at h
    try split_ifs at h
    all_goals cases h
    all_goals rfl

theorem parserParseFingerStep_keepsLanguage : KeepsLanguage parserParseFingerStep := by
  intro n c s t h
  cases hstate : s.parser.state with
  | _ =>
    simp only [parserParseFingerStep, hstate] at h
    try split_ifs at h
    all_goals cases h
    all_goals rfl

theorem parserParseGeminiLikeStep_keepsLanguage (protocol : List UInt8) :
    KeepsLanguage (parserParseGeminiLikeStep protocol) := by
  intro n c s t h
  cases hstate : s.parser.state with
  | _ =>
    simp only [parserParseGeminiLikeStep, hstate] at h
    try split_ifs at h
    all_goals cases h
    all_goals rfl

theorem parserParseSpartanStep_keepsLanguage (lookup : Lookup) :
    KeepsLanguage (parserParseSpartanStep lookup) := by
  intro n c s t h
  cases hstate : s.parser.state with
  | waitNameEnd =>
    simp only [parserParseSpartanStep, hstate] at h
    split at h
    · cases h
      rfl
    split at h
    · obtain ⟨_, u, hu, h⟩ := Outcome.andThen_eq_ok.mp h
      have hlength : u.request.language = s.request.language :=
        congrArg (·.request.language) (parserParseSpartanLength_ok hu).1
      split_ifs at h <;> cases h <;> exact hlength
    · cases h
  | _ =>
    simp only [parserParseSpartanStep, hstate] at h
    try split_ifs at h
    all_goals cases h
    all_goals rfl

/-- In whatever pieces the line arrives, it is parsed to its end, and its resource is found. -/
def IsRequested (acceptingSocket : ℕ) (w : List UInt8) (rings : List Ring) (resource : List UInt8) : Prop :=
  ∃ s, parserParses acceptingSocket rings Progress.zero = .ok () s ∧ s.parser.state = .end ∧
    s.request.streamSize = w.length ∧ s.request.language = 0 ∧ Selects w s.request.resource resource

/-- A line that is counted up to the end is parsed to its end. -/
theorem Resumes.isRequested {acceptingSocket : ℕ} {w : List UInt8} {rings : List Ring}
    {Inv : Progress → Prop} {initial : ParserState} {step : Lookup → ParserStep}
    (hp : Resumes Inv initial step) (hkeeps : KeepsLanguage (step (wholeLookup w)))
    (hfunction : ∀ lookup, parserFunction acceptingSocket lookup = parsePart initial (step lookup))
    (hw : w.length < maxRequestSize) (hr : Delivers w 0 rings) (hzero : Inv Progress.zero)
    {t : Progress} (hend : t.parser.state = .end) {resource : List UInt8}
    (hresource : Selects w t.request.resource resource)
    (h : Consumes (step (wholeLookup w)) Progress.bump w (Progress.zero.begin initial) t) :
    IsRequested acceptingSocket w rings resource := by
  obtain ⟨s, hparses, hs⟩ := hp.parses_of_consumes hfunction hw hr rfl hzero h
  obtain rfl := Progress.eq_of_begin_end hp.initial_ne_end hs hend
  have hlanguage : s.request.language = 0 := by
    rw [hkeeps.consumes h]
    rfl
  have hbegin := Progress.begin_ne hp.initial_ne_begin Progress.zero
  have hstart : (Progress.zero.begin initial).request.streamSize = 0 := Progress.begin_streamSize _ _
  obtain ⟨hsize, -⟩ := hp.counts (wholeLookup_reads w) h (by omega) (hp.begin hzero) hbegin
  exact ⟨s, hparses, hend, by omega, hlanguage, hresource⟩

section

variable {acceptingSocket : ℕ} {w : List UInt8} {rings : List Ring} {fields : LineFields}
  (hw : w.length < maxRequestSize) (hr : Delivers w 0 rings)
include hw hr

/-- A line of Gopher or Nex. -/
theorem GopherLine.isRequested (h : GopherLine w fields)
    (hfunction : ∀ lookup, parserFunction acceptingSocket lookup
      = parsePart .waitResourceEnd parserParseGopherStep) :
    IsRequested acceptingSocket w rings fields.resource := by
  obtain ⟨t, hend, -, hselects, hconsumes⟩ := h.consumes
  exact (parserParseGopherStep_plain.resumes (by decide) (by decide)).isRequested
    parserParseGopherStep_keepsLanguage hfunction hw hr trivial hend hselects.resource hconsumes

/-- A line of Gemini, Guppy or Text. -/
theorem GeminiLine.isRequested {protocol : List UInt8} (hprotocol : protocol ≠ [])
    (h : GeminiLine protocol w fields)
    (hfunction : ∀ lookup, parserFunction acceptingSocket lookup
      = parsePart .waitProtocolEnd (parserParseGeminiLikeStep protocol)) :
    IsRequested acceptingSocket w rings fields.resource := by
  obtain ⟨t, hend, -, hselects, hconsumes⟩ := h.consumes hprotocol
  have hp : PlainStep (parserParseGeminiLikeStep protocol) := parserParseGeminiLikeStep_plain protocol
  exact (hp.resumes (by decide) (by decide)).isRequested
    (parserParseGeminiLikeStep_keepsLanguage protocol) hfunction hw hr trivial hend hselects.resource
    hconsumes

/-- A line of Spartan that promises no content. -/
theorem SpartanLine.isRequested (h : SpartanLine w fields)
    (hfunction : ∀ lookup, parserFunction acceptingSocket lookup
      = parsePart .waitMethodEnd (parserParseSpartanStep lookup)) :
    IsRequested acceptingSocket w rings fields.resource := by
  obtain ⟨t, hend, -, hselects, hconsumes⟩ := h.consumes hw.le
  exact parserParseSpartanStep_resumes.isRequested (parserParseSpartanStep_keepsLanguage _) hfunction hw hr
    (Progress.zero_within _) hend hselects.resource hconsumes

/-- A line of Finger with the name of a user, or without one. -/
theorem isRequested_finger {user : List UInt8} (hline : w = user ++ crlf)
    (huser : ∀ c ∈ user, c ≠ 13 ∧ c ≠ 10) (hfirst : ∀ c ∈ user.head?, c ≠ 32 ∧ c ≠ 47)
    (hfunction : ∀ lookup, parserFunction acceptingSocket lookup
      = parsePart .waitMethodBegin parserParseFingerStep) :
    IsRequested acceptingSocket w rings user := by
  have hp : PlainStep parserParseFingerStep := parserParseFingerStep_plain
  have hswitch : IsSwitch false [] := rfl
  have hend : LineEnd.crlf ≠ .cr := by decide
  have hconsumes := fingerLine huser hfirst hswitch hend
  obtain ⟨-, hselects⟩ := fingerTaken_selects (e := .crlf) hfirst hswitch (.inl rfl)
  obtain ⟨-, hresource, -, -⟩ := (fingerTaken false [] user).close_fields .crlf
  have hbytes : [] ++ (user ++ LineEnd.crlf.bytes) = w := hline.symm
  rw [hbytes] at hconsumes hselects
  rw [← hresource] at hselects
  exact (hp.resumes (by decide) (by decide)).isRequested parserParseFingerStep_keepsLanguage hfunction hw hr
    trivial (Progress.close_state hend) hselects hconsumes

end

/-! ## References -/

theorem acceptingSocketIsQuestion_eq (acceptingSocket : ℕ) : acceptingSocketIsQuestion acceptingSocket
    = (acceptingSocketProtocol acceptingSocket ∈ [Protocol.http, .https, .gemini, .guppy] : Bool) := by
  unfold acceptingSocketProtocol
  split_ifs <;>
    simp_all [acceptingSocketIsQuestion, acceptingSocketIsHttp, acceptingSocketIsHttps,
      acceptingSocketIsGopher, acceptingSocketIsFinger, acceptingSocketIsGemini, acceptingSocketIsSpartan,
      acceptingSocketIsNex, acceptingSocketIsText, acceptingSocketIsGuppy] <;>
    omega

theorem acceptingSocketIsQuestion_congr {acceptingSocket target : ℕ}
    (h : acceptingSocketProtocol target = acceptingSocketProtocol acceptingSocket) :
    acceptingSocketIsQuestion target = acceptingSocketIsQuestion acceptingSocket := by
  rw [acceptingSocketIsQuestion_eq, h, ← acceptingSocketIsQuestion_eq]

/-- A resource is a page with its language behind it, up to slashes at its ends. -/
def Refers (acceptingSocket : ℕ) (languages : LinkLanguages) (language : UInt8)
    (page resource : List UInt8) : Prop :=
  if acceptingSocketIsQuestion acceptingSocket then
    ∃ slashes, resource = List.replicate slashes 47 ++ (page ++ languages.question language)
  else stripSlashes resource = stripSlashes (page ++ languages.slash language)

section

variable {acceptingSocket : ℕ} {languages : LinkLanguages} {language : UInt8} {page : List UInt8}

/-- What a page is displayed in where its link does not say so is its language. -/
theorem languageExplicit_resolves (hlanguage : language = 101 ∨ language = 100)
    (explicitRequest implicitRequest : UInt8) {requested : UInt8}
    (hrequested : requested
      = if languageExplicit language explicitRequest implicitRequest then language else 0) :
    (if (if requested = 0 then implicitRequest else requested) = 0 then implicitLanguage
      else if requested = 0 then implicitRequest else requested) = language := by
  subst hrequested
  have hzero : language ≠ 0 := by
    rintro rfl
    exact absurd hlanguage (by decide)
  obtain h | ⟨h, hdisplayed⟩ := languageExplicit_cases language explicitRequest implicitRequest
  · rw [if_pos h, if_neg hzero, if_neg hzero]
  · simp only [h, Bool.false_eq_true, if_false, if_true]
    exact hdisplayed

/-- A reference resolves to its page and its language. -/
theorem Refers.resolves {resource : List UInt8} (hpage : IsPage page)
    (hlanguage : language = 101 ∨ language = 100)
    (h : Refers acceptingSocket languages language page resource) {value : ConstantValue}
    (hvalue : value.bytes = resource) :
    (processorGenericResolve acceptingSocket languages.requestLanguage value).1.bytes = page ∧
      (processorGenericResolve acceptingSocket languages.requestLanguage value).2 = language := by
  rw [processorGenericResolve]
  unfold Refers at h
  split_ifs at h ⊢
  · obtain ⟨slashes, hslashes⟩ := h
    have hlink := Prod.mk.inj (processorGenericNormalizeQuestion_link hpage hlanguage
      (hvalue.trans hslashes))
    exact ⟨hlink.1, languageExplicit_resolves hlanguage _ _ hlink.2⟩
  · -- slashes at the ends make no difference
    have hstripped := processorGenericNormalizeSlash_bytes value
    have hprinted : (⟨page ++ languages.slash language, []⟩ : ConstantValue).bytes
        = List.replicate 0 47 ++ (page ++ languages.slash language) := List.append_nil _
    have hlink := processorGenericNormalizeSlash_link hpage hlanguage hprinted
    rw [hvalue, ← stripSlashes, h] at hstripped
    rw [processorGenericNormalizeSlash_bytes, hprinted, ← stripSlashes] at hlink
    have hlink := Prod.mk.inj (hstripped.trans hlink)
    exact ⟨hlink.1, languageExplicit_resolves hlanguage _ _ hlink.2⟩

end

/-! ## What is printed -/

theorem stripSlashes_cons (path : List UInt8) : stripSlashes (47 :: path) = stripSlashes path := by
  rw [stripSlashes, List.dropWhile_cons_of_pos rfl, stripSlashes]

theorem stripSlashes_append (path : List UInt8) : stripSlashes (path ++ ascii "/") = stripSlashes path := by
  have hslash : ascii "/" = [47] := rfl
  rw [stripSlashes, stripSlashes, hslash, List.dropWhile_append]
  split_ifs with hnil
  · rw [List.isEmpty_iff.mp hnil]
    rfl
  · exact List.rdropWhile_concat_pos isSlash _ _ rfl

section

variable (language explicitRequest implicitRequest : UInt8)

theorem languageSlash_cases :
    languageSlash language explicitRequest implicitRequest = [] ∨
      languageSlash language explicitRequest implicitRequest = ascii "/en" ∨
      languageSlash language explicitRequest implicitRequest = ascii "/de" := by
  rw [languageSlash]
  split_ifs <;> simp

theorem languageQuestion_cases :
    languageQuestion language explicitRequest implicitRequest = [] ∨
      languageQuestion language explicitRequest implicitRequest = ascii "?lang=en" ∨
      languageQuestion language explicitRequest implicitRequest = ascii "?lang=de" := by
  rw [languageQuestion]
  split_ifs <;> simp

theorem visible_languageSlash :
    (languageSlash language explicitRequest implicitRequest).all isVisible = true := by
  obtain h | h | h := languageSlash_cases language explicitRequest implicitRequest <;> rw [h] <;> rfl

theorem visible_languageQuestion :
    (languageQuestion language explicitRequest implicitRequest).all isVisible = true := by
  obtain h | h | h := languageQuestion_cases language explicitRequest implicitRequest <;> rw [h] <;> rfl

end

theorem isDomain_domainName (release : Bool) : ∀ c ∈ domainName release, isDomain c = true := by
  cases release <;> exact List.all_eq_true.mp (by rfl)

/-- A path that leads to a page in a language, and that no parser cuts short. -/
structure LinkPath (acceptingSocket : ℕ) (languages : LinkLanguages) (language : UInt8)
    (page path : List UInt8) : Prop where
  visible : path.all isVisible = true
  first : ∀ c ∈ path.head?, c = 47
  second : ∀ c ∈ (path.drop 1).head?, c ≠ 47
  refers : Refers acceptingSocket languages language page path

section

variable {acceptingSocket : ℕ} (languages : LinkLanguages) (language : UInt8) {page : List UInt8}

/-- The path behind which the language stands with a slash. -/
theorem slashPath_linkPath (hslash : acceptingSocketIsQuestion acceptingSocket = false) (hpage : IsPage page)
    (hvisible : page.all isVisible = true) :
    LinkPath acceptingSocket languages language page (slashPath languages language page) := by
  have hlanguage : (languages.slash language).all isVisible = true := visible_languageSlash _ _ _
  obtain rfl | hne := eq_or_ne page []
  · -- the slash is that of the language
    have hpath : slashPath languages language [] = languages.slash language := rfl
    rw [hpath]
    have hcases := languageSlash_cases language languages.requestedLanguage languages.requestLanguage
    refine ⟨hlanguage, ?_, ?_, ?_⟩
    · obtain h | h | h := hcases <;> simp [LinkLanguages.slash, h, ascii]
    · obtain h | h | h := hcases <;> simp [LinkLanguages.slash, h, ascii]
    · rw [Refers, hslash]
      rfl
  · have hpath : slashPath languages language page = 47 :: (page ++ languages.slash language) := by
      rw [slashPath, if_neg hne]
      rfl
    rw [hpath]
    refine ⟨?_, fun c hc => (Option.some.inj hc).symm, ?_, ?_⟩
    · rw [List.all_cons, List.all_append, hvisible, hlanguage]
      rfl
    · rw [List.drop_one, List.tail_cons, List.head?_append_of_ne_nil _ hne]
      rintro _ hc rfl
      exact hpage.leading hc
    · rw [Refers, hslash]
      exact stripSlashes_cons _

/-- The path behind which the language stands with a question mark. -/
theorem questionPath_linkPath (hquestion : acceptingSocketIsQuestion acceptingSocket = true)
    (hpage : IsPage page) (hvisible : page.all isVisible = true) :
    LinkPath acceptingSocket languages language page
      (ascii "/" ++ page ++ languages.question language) := by
  have hlanguage : (languages.question language).all isVisible = true := visible_languageQuestion _ _ _
  refine ⟨?_, fun c hc => (Option.some.inj hc).symm, ?_, ?_⟩
  · rw [List.all_append, List.all_append, hvisible, hlanguage]
    rfl
  · intro c hc
    rcases page with _ | ⟨first, rest⟩
    · have hmark : ∀ c ∈ (languages.question language).head?, c = 63 := by
        rw [LinkLanguages.question, languageQuestion]
        split_ifs <;> simp [ascii]
      obtain rfl := hmark c hc
      decide
    · rintro rfl
      exact hpage.leading hc
  · rw [Refers, hquestion]
    exact ⟨1, rfl⟩

end

/-- The parts of a URL. -/
theorem urlParts (scheme host port : List UInt8) {path : List UInt8} (hscheme : 58 ∉ scheme)
    (hhost : ∀ c ∈ host, c ≠ 47 ∧ c ≠ 58) (hport : 47 ∉ port ∧ ∀ c ∈ port.head?, c = 58)
    (hpath : ∀ c ∈ path.head?, c = 47) :
    urlHost (scheme ++ ascii "://" ++ host ++ port ++ path) = host ∧
      urlPath (scheme ++ ascii "://" ++ host ++ port ++ path) = path := by
  have hrest : urlRest (scheme ++ ascii "://" ++ host ++ port ++ path) = host ++ (port ++ path) := by
    have hcolon : ascii "://" = [58, 47, 47] := rfl
    rw [urlRest, List.append_assoc, List.append_assoc, List.append_assoc, List.dropWhile_append_of_pos, hcolon]
    · rfl
    · intro c hc
      rw [bne_iff_ne]
      rintro rfl
      exact hscheme hc
  rw [urlHost, urlPath, hrest]
  constructor
  · rw [List.takeWhile_append_of_pos]
    · rcases port with _ | ⟨c, port⟩
      · rcases path with _ | ⟨c, path⟩
        · exact List.append_nil host
        · obtain rfl := hpath c rfl
          exact List.append_nil host
      · obtain rfl := hport.2 c rfl
        exact List.append_nil host
    · intro c hc
      simp [hhost c hc]
  · rw [← List.append_assoc, List.dropWhile_append_of_pos]
    · rcases path with _ | ⟨c, path⟩
      · rfl
      · obtain rfl := hpath c rfl
        rfl
    · intro c hc
      rw [bne_iff_ne]
      rintro rfl
      obtain hc | hc := List.mem_append.mp hc
      · exact (hhost 47 hc).1 rfl
      · exact hport.1 hc

/-! ## Following a link -/

/-- A visible character ends no field of a line. -/
theorem isVisible_ne {c : UInt8} (h : isVisible c = true) : c ≠ 9 ∧ c ≠ 13 ∧ c ≠ 10 ∧ c ≠ 32 := by
  refine ⟨?_, ?_, ?_, ?_⟩ <;>
  · rintro rfl
    exact absurd h (by decide)

/-- The scheme of a protocol. -/
def Protocol.scheme : Protocol → List UInt8
  | .http => ascii "http"
  | .https => ascii "https"
  | .gopher => ascii "gopher"
  | .finger => ascii "finger"
  | .gemini => ascii "gemini"
  | .spartan => ascii "spartan"
  | .nex => ascii "nex"
  | .text => ascii "text"
  | .guppy => ascii "guppy"

/-- `HTTP_PORT_STRING` and its like -/
def Protocol.portString (release : Bool) : Protocol → List UInt8
  | .http => Twinkleshine.portString release (ascii "8080")
  | .https => Twinkleshine.portString release (ascii "8443")
  | .gopher => Twinkleshine.portString release (ascii "8070")
  | .finger => fingerPortString release
  | .gemini => geminiPortString release
  | .spartan => spartanPortString release
  | .nex => Twinkleshine.portString release (ascii "9900")
  | .text => textPortString release
  | .guppy => guppyPortString release

/-- What stands in a URL in front of its path. -/
def Protocol.reference (release : Bool) (protocol : Protocol) : List UInt8 :=
  protocol.scheme ++ ascii "://" ++ domainName release ++ protocol.portString release

/-- The parts of a URL of a protocol. -/
theorem urlParts_reference (release : Bool) (protocol : Protocol) {path : List UInt8}
    (hpath : ∀ c ∈ path.head?, c = 47) :
    urlHost (protocol.reference release ++ path) = domainName release ∧
      urlPath (protocol.reference release ++ path) = path := by
  have hscheme : (protocol.scheme).all (· != 58) = true := by cases protocol <;> rfl
  have hhost : (domainName release).all (fun c => c != 47 && c != 58) = true := by cases release <;> rfl
  have hport : (protocol.portString release).all (· != 47) = true ∧
      (protocol.portString release).head?.all (· == 58) = true := by
    cases release <;> cases protocol <;> exact ⟨rfl, rfl⟩
  simp only [List.all_eq_true, bne_iff_ne, Bool.and_eq_true] at hscheme hhost hport
  refine urlParts protocol.scheme (domainName release) (protocol.portString release)
    (fun h => hscheme 58 h rfl) hhost ⟨fun h => hport.1 47 h rfl, fun c hc => ?_⟩ hpath
  have hhead := hport.2
  rw [Option.mem_def.mp hc] at hhead
  exact eq_of_beq hhead

section

variable {acceptingSocket : ℕ} {languages : LinkLanguages} {language : UInt8} {page path w : List UInt8}
  {rings : List Ring}

/-- A resource is requested that is a page with its language behind it. -/
def Follows (acceptingSocket : ℕ) (languages : LinkLanguages) (language : UInt8) (page w : List UInt8)
    (rings : List Ring) : Prop :=
  ∃ resource, IsRequested acceptingSocket w rings resource ∧
    Refers acceptingSocket languages language page resource

variable (hw : w.length < maxRequestSize) (hr : Delivers w 0 rings)
include hw hr

/-- The URLs of Gemini, Guppy and Text are lines. -/
theorem LinkPath.follows_gemini (h : LinkPath acceptingSocket languages language page path) (release : Bool)
    (protocol : Protocol)
    (hfunction : ∀ lookup, parserFunction acceptingSocket lookup
      = parsePart .waitProtocolEnd (parserParseGeminiLikeStep (protocol.scheme ++ ascii "://")))
    (hline : w = protocol.reference release ++ path ++ crlf) :
    Follows acceptingSocket languages language page w rings := by
  have hfields : GeminiLine (protocol.scheme ++ ascii "://") w
      ⟨domainName release ++ protocol.portString release, path, protocol.scheme ++ ascii "://"⟩ := by
    refine ⟨rfl, fun c hc => ?_, ?_, .crlf, by decide, ?_⟩
    · have hport : (protocol.portString release).all (fun c => isDomain c || c == 58) = true := by
        cases release <;> cases protocol <;> rfl
      obtain hc | hc := List.mem_append.mp hc
      · exact .inl (isDomain_domainName release c hc)
      · simpa using List.all_eq_true.mp hport c hc
    · have hvisible := h.visible
      have hfirst := h.first
      rcases path with _ | ⟨c, path⟩
      · exact .inl rfl
      · obtain rfl := hfirst c rfl
        rw [List.all_cons, Bool.and_eq_true] at hvisible
        exact .inr ⟨path, rfl, List.all_eq_true.mp hvisible.2⟩
    · rw [hline]
      simp only [Protocol.reference, List.append_assoc]
      rfl
  exact ⟨path, hfields.isRequested hw hr (by simp [ascii]) hfunction, h.refers⟩

/-- The selectors of Gopher and the paths of Nex are lines. -/
theorem follows_gopher (hvisible : path.all isVisible = true)
    (hrefers : Refers acceptingSocket languages language page path)
    (hfunction : ∀ lookup, parserFunction acceptingSocket lookup
      = parsePart .waitResourceEnd parserParseGopherStep) (hline : w = path ++ crlf) :
    Follows acceptingSocket languages language page w rings := by
  have hfields : GopherLine w ⟨[], path, []⟩ := by
    refine ⟨rfl, rfl, fun c hc => ?_, .crlf, by decide, hline⟩
    obtain ⟨htab, hcr, hlf, -⟩ := isVisible_ne (List.all_eq_true.mp hvisible c hc)
    exact ⟨htab, hcr, hlf⟩
  exact ⟨path, hfields.isRequested hw hr hfunction, hrefers⟩

/-- The URLs of Spartan make lines. -/
theorem LinkPath.follows_spartan (h : LinkPath acceptingSocket languages language page path) (release : Bool)
    (hprotocol : acceptingSocketProtocol acceptingSocket = .spartan)
    (hline : w = urlRequest .spartan (Protocol.spartan.reference release ++ path)) :
    Follows acceptingSocket languages language page w rings := by
  obtain ⟨hhost, hpath⟩ := urlParts_reference release .spartan h.first
  simp only [urlRequest, hhost, hpath] at hline
  have hvisible : (if path = [] then ascii "/" else path).all isVisible = true := by
    split_ifs
    · decide
    · exact h.visible
  have hspelling : SpartanSpelling w ⟨domainName release, if path = [] then ascii "/" else path, []⟩ 1 1 1
      .crlf := by
    refine ⟨rfl, isDomain_domainName release, ?_, List.all_eq_true.mp hvisible, by decide, by decide,
      by decide, by decide, ?_⟩
    · dsimp only
      split_ifs with hnil
      · decide
      · exact hnil
    · rw [hline]
      simp only [List.append_assoc]
      rfl
  have hfields : SpartanLine w ⟨domainName release, if path = [] then ascii "/" else path, []⟩ :=
    ⟨1, 1, 1, .crlf, hspelling⟩
  have hfunction : ∀ lookup, parserFunction acceptingSocket lookup
      = parsePart .waitMethodEnd (parserParseSpartanStep lookup) := by
    intro lookup
    rw [parserFunction, hprotocol]
    rfl
  refine ⟨_, hfields.isRequested hw hr hfunction, ?_⟩
  have hrefers := h.refers
  rw [Refers, acceptingSocketIsQuestion_eq, hprotocol] at hrefers ⊢
  refine Eq.trans ?_ hrefers
  dsimp only
  split_ifs with hnil
  · rw [hnil]
    rfl
  · rfl

/-- The URLs of Finger make lines. -/
theorem LinkPath.follows_finger (h : LinkPath acceptingSocket languages language page path) (release : Bool)
    (hprotocol : acceptingSocketProtocol acceptingSocket = .finger)
    (hline : w = urlRequest .finger (Protocol.finger.reference release ++ path)) :
    Follows acceptingSocket languages language page w rings := by
  obtain ⟨-, hpath⟩ := urlParts_reference release .finger h.first
  simp only [urlRequest, hpath] at hline
  have hvisible : ∀ c ∈ path.drop 1, isVisible c = true := fun c hc =>
    List.all_eq_true.mp h.visible c (List.mem_of_mem_drop hc)
  refine ⟨path.drop 1, isRequested_finger hw hr hline (fun c hc => ?_) (fun c hc => ⟨?_, h.second c hc⟩) ?_, ?_⟩
  · obtain ⟨-, hcr, hlf, -⟩ := isVisible_ne (hvisible c hc)
    exact ⟨hcr, hlf⟩
  · exact (isVisible_ne (hvisible c (List.mem_of_mem_head? hc))).2.2.2
  · intro lookup
    rw [parserFunction, hprotocol]
    rfl
  · have hrefers := h.refers
    rw [Refers, acceptingSocketIsQuestion_eq, hprotocol] at hrefers ⊢
    refine Eq.trans ?_ hrefers
    have hfirst := h.first
    rcases path with _ | ⟨c, path⟩
    · rfl
    · obtain rfl := hfirst c rfl
      exact (stripSlashes_cons path).symm

/-- A URL whose path leads to a page is followed, in the protocols that take its path as it is. -/
theorem LinkPath.follows_url (h : LinkPath acceptingSocket languages language page path) (release : Bool)
    (hprotocol : acceptingSocketProtocol acceptingSocket
      ∈ [Protocol.gemini, .guppy, .text, .spartan, .finger])
    (hline : w = urlRequest (acceptingSocketProtocol acceptingSocket)
      ((acceptingSocketProtocol acceptingSocket).reference release ++ path)) :
    Follows acceptingSocket languages language page w rings := by
  cases hcase : acceptingSocketProtocol acceptingSocket with
  | http | https | gopher | nex =>
    rw [hcase] at hprotocol
    exact absurd hprotocol (by decide)
  | spartan => exact h.follows_spartan hw hr release hcase (hcase ▸ hline)
  | finger => exact h.follows_finger hw hr release hcase (hcase ▸ hline)
  | gemini | guppy | text =>
    rw [hcase] at hline
    refine h.follows_gemini hw hr release _ (fun lookup => ?_) hline
    rw [parserFunction, hcase]
    rfl

/-- Slashes in front of a selector and behind it make no difference. -/
theorem follows_selector (hvisible : path.all isVisible = true)
    (hprotocol : acceptingSocketProtocol acceptingSocket ∈ [Protocol.gopher, .nex])
    (hpath : stripSlashes path = stripSlashes (page ++ languages.slash language)) (hline : w = path ++ crlf) :
    Follows acceptingSocket languages language page w rings := by
  refine follows_gopher hw hr hvisible ?_ (fun lookup => ?_) hline
  · rw [Refers, acceptingSocketIsQuestion_eq]
    cases hcase : acceptingSocketProtocol acceptingSocket with
    | gopher | nex => exact hpath
    | _ =>
      rw [hcase] at hprotocol
      exact absurd hprotocol (by decide)
  · cases hcase : acceptingSocketProtocol acceptingSocket with
    | gopher | nex =>
      rw [parserFunction, hcase]
      rfl
    | _ =>
      rw [hcase] at hprotocol
      exact absurd hprotocol (by decide)

/-- The selector of a page in Gopher has its language behind it. -/
theorem follows_page_gopher (hvisible : page.all isVisible = true)
    (hprotocol : acceptingSocketProtocol acceptingSocket = .gopher)
    (hline : w = page ++ languages.slash language ++ crlf) :
    Follows acceptingSocket languages language page w rings := by
  refine follows_selector hw hr ?_ (by rw [hprotocol]; decide) rfl hline
  rw [List.all_append, hvisible, LinkLanguages.slash, visible_languageSlash]
  rfl

/-- A path in Nex has a slash behind it. -/
theorem LinkPath.follows_nex (h : LinkPath acceptingSocket languages language page path)
    (hprotocol : acceptingSocketProtocol acceptingSocket = .nex) (hline : w = path ++ ascii "/" ++ crlf) :
    Follows acceptingSocket languages language page w rings := by
  have hrefers := h.refers
  rw [Refers, acceptingSocketIsQuestion_eq, hprotocol] at hrefers
  refine follows_selector hw hr ?_ (by rw [hprotocol]; decide) ((stripSlashes_append _).trans hrefers) hline
  rw [List.all_append, h.visible]
  rfl

/-- The line of a client that follows a reference to a page requests it. -/
theorem follows_reference {release : Bool} (hpage : IsPage page) (hvisible : page.all isVisible = true)
    (hprotocol : acceptingSocketProtocol acceptingSocket ≠ .http ∧
      acceptingSocketProtocol acceptingSocket ≠ .https)
    (hline : w = referenceRequest release acceptingSocket languages language page) :
    Follows acceptingSocket languages language page w rings := by
  have hquestion := acceptingSocketIsQuestion_eq acceptingSocket
  unfold referenceRequest at hline
  cases hcase : acceptingSocketProtocol acceptingSocket with
  | http => exact absurd hcase hprotocol.1
  | https => exact absurd hcase hprotocol.2
  | gopher =>
    simp only [hcase] at hline
    exact follows_page_gopher hw hr hvisible hcase hline
  | nex =>
    simp only [hcase] at hline hquestion
    exact (slashPath_linkPath languages language hquestion hpage hvisible).follows_nex hw hr hcase hline
  | finger | spartan | text =>
    simp only [hcase] at hline hquestion
    have hpath := slashPath_linkPath languages language hquestion hpage hvisible
    refine hpath.follows_url hw hr release (by rw [hcase]; decide) ?_
    rw [hcase]
    exact hline
  | gemini | guppy =>
    simp only [hcase] at hline hquestion
    have hpath := questionPath_linkPath languages language hquestion hpage hvisible
    refine hpath.follows_url hw hr release (by rw [hcase]; decide) ?_
    rw [hcase, hline]
    simp only [geminiUrl, guppyUrl, Protocol.reference, List.append_assoc]
    rfl

end

/-- What `processor_generic` resolves the resource of a request to. -/
def ResolvesTo (acceptingSocket : ℕ) (page : List UInt8) (language : UInt8) (lookup : Lookup)
    (request : Request) : Prop :=
  ∃ value, lookup request.resource = .ok value ∧
    (processorGenericResolve acceptingSocket request.language value).1.bytes = page ∧
    (processorGenericResolve acceptingSocket request.language value).2 = language

/-- In whatever pieces a line arrives, it is parsed to its end, and its resource resolves to a page and a
language, whatever has arrived behind it. -/
def LeadsTo (acceptingSocket : ℕ) (w : List UInt8) (rings : List Ring) (page : List UInt8) (language : UInt8) :
    Prop :=
  ∃ s, parserParses acceptingSocket rings Progress.zero = .ok () s ∧ s.parser.state = .end ∧
    s.request.streamSize = w.length ∧
    ∀ (lookup : Lookup) (more : List UInt8), Reads lookup (w ++ more) →
      ResolvesTo acceptingSocket page language lookup s.request

/-- A request for a page leads to it. -/
theorem Follows.leadsTo {acceptingSocket : ℕ} {requestedLanguage language : UInt8} {page w : List UInt8}
    {rings : List Ring} (h : Follows acceptingSocket ⟨requestedLanguage, 0⟩ language page w rings)
    (hpage : IsPage page) (hlanguage : language = 101 ∨ language = 100) :
    LeadsTo acceptingSocket w rings page language := by
  obtain ⟨resource, ⟨s, hparses, hend, hsize, hzero, hselects⟩, hrefers⟩ := h
  refine ⟨s, hparses, hend, hsize, fun lookup more hreads => ?_⟩
  obtain ⟨value, hvalue, hbytes⟩ := hreads.of_append s.request.resource hselects.1
  rw [hselects.2] at hbytes
  refine ⟨value, hvalue, ?_⟩
  rw [hzero]
  exact hrefers.resolves hpage hlanguage hbytes

/-- An internal reference leads back. Whoever follows it sends a line that is accepted in whatever pieces it
arrives, and that resolves to the page and the language the reference was printed for. -/
theorem referenceRequest_leadsTo (release : Bool) (acceptingSocket : ℕ)
    (hprotocol : acceptingSocketProtocol acceptingSocket ≠ .http ∧
      acceptingSocketProtocol acceptingSocket ≠ .https)
    (requestedLanguage : UInt8) {language : UInt8} (hlanguage : language = 101 ∨ language = 100)
    {page : List UInt8} (hpage : IsPage page) (hvisible : page.all isVisible = true) {w : List UInt8}
    (hline : w = referenceRequest release acceptingSocket ⟨requestedLanguage, 0⟩ language page)
    (hw : w.length < maxRequestSize) {rings : List Ring} (hr : Delivers w 0 rings) :
    LeadsTo acceptingSocket w rings page language :=
  (follows_reference hw hr hpage hvisible hprotocol hline).leadsTo hpage hlanguage

/-- The line for the German page about the author, in Spartan. -/
def aboutRequest : List UInt8 := ascii "localhost /about/de 0\r\n"

/-- The German page about the author, from a reference in Spartan, behind which another request has
arrived. -/
theorem referenceRequest_leadsTo_about :
    LeadsTo 10 aboutRequest [contiguousRing (aboutRequest.take 13), contiguousRing aboutRequest]
      (ascii "about") 100 := by
  have hpage : IsPage (ascii "about") :=
    ⟨forall_mem_of_all rfl, by decide, by decide, by decide⟩
  have hdelivers : Delivers aboutRequest 0
      [contiguousRing (aboutRequest.take 13), contiguousRing aboutRequest] :=
    ⟨⟨rfl, by decide, by decide⟩, by decide, by decide, ⟨rfl, by decide, by decide⟩, by decide, by decide, rfl⟩
  exact referenceRequest_leadsTo false 10 (by decide) 0 (.inr rfl) hpage (by decide) (by rfl) (by decide)
    hdelivers

end Twinkleshine
