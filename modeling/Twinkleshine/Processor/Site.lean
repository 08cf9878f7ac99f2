import Mathlib.Logic.Relation
import Twinkleshine.Processor.Links

/-!
# The pages and their links

Reference: `processor_generic`, `processor_generic_header` and `processor_generic_footer` in
`source/processor/generic.c`.

A page has references to itself in the other language, to other pages in its own language, and to itself in
the other protocols. Whoever follows them, from any page and through any number of references, is never led
to a resource that does not exist, and can get to every page in every language and in every protocol of one
line.
-/

namespace Twinkleshine

open Library

/-! ## Pages -/

/-- The resources `processor_generic` knows, in the order it compares them. -/
def pages : List (List UInt8) :=
  [ascii "", ascii "about", ascii "twinkleshine", ascii "smolnet", ascii "contact", ascii "projects",
    ascii "resume"]

/-- What is displayed: a page, its language, and the language its resource has asked for. -/
structure Displayed where
  acceptingSocket : ℕ
  page : List UInt8
  language : UInt8
  requestedLanguage : UInt8
deriving DecidableEq, Repr

/-- What `processor_generic` prints for a resource, or nothing where it reports that the resource is
invalid. -/
def processorGenericDisplay (acceptingSocket : ℕ) (requestLanguage : UInt8) (resource : ConstantValue) :
    Option Displayed :=
  let resolved := processorGenericResolve acceptingSocket requestLanguage resource
  let requestedLanguage :=
    if acceptingSocketIsQuestion acceptingSocket then (processorGenericNormalizeQuestion resource).2
    else (processorGenericNormalizeSlash resource).2
  (pages.find? (valueCompareCaseMem resolved.1)).map fun page =>
    ⟨acceptingSocket, page, resolved.2, requestedLanguage⟩

/-! ## References -/

/-- An entry with the style `ES_INTERNAL_REFERENCE`. -/
structure InternalReference where
  resource : List UInt8
  language : UInt8
deriving DecidableEq, Repr

/-- `processor_generic_header` -/
def processorGenericHeader (language : UInt8) (resource : List UInt8) : List InternalReference :=
  (if language ≠ 101 then [⟨resource, 101⟩] else []) ++ (if language ≠ 100 then [⟨resource, 100⟩] else [])

/-- The internal references of `processor_generic_footer`. -/
def footerInternal (language : UInt8) (resource : List UInt8) : List InternalReference :=
  ⟨ascii "smolnet", language⟩ ::
    -- We are on landing page, don't print "back"
    if resource ≠ [] then [⟨ascii "", language⟩] else []

/-- The pages a page refers to between its header and its footer. -/
def pageReferences (page : List UInt8) (language : UInt8) : List (List UInt8) :=
  if page = ascii "" then
    if language = 100 then
      [ascii "about", ascii "twinkleshine", ascii "smolnet", ascii "projects", ascii "resume",
        ascii "contact"]
    else
      [ascii "about", ascii "twinkleshine", ascii "smolnet", ascii "resume", ascii "projects",
        ascii "contact"]
  else if page = ascii "about" then [ascii "resume", ascii "projects"]
  else []

/-- The internal references of a page. -/
def internalReferences (page : List UInt8) (language : UInt8) : List InternalReference :=
  processorGenericHeader language page ++ (pageReferences page language).map (⟨·, language⟩)
    ++ footerInternal language page

/-- `protocol_references` -/
def protocolReferences (release : Bool) : List (List UInt8) :=
  [ascii "http://" ++ domainName release ++ portString release (ascii "8080"),
    ascii "https://" ++ domainName release ++ portString release (ascii "8443"),
    ascii "gopher://" ++ domainName release ++ portString release (ascii "8070"),
    ascii "finger://" ++ domainName release ++ fingerPortString release,
    ascii "gemini://" ++ domainName release ++ geminiPortString release,
    ascii "spartan://" ++ domainName release ++ spartanPortString release,
    ascii "nex://" ++ domainName release ++ portString release (ascii "9900"),
    ascii "text://" ++ domainName release ++ textPortString release,
    ascii "guppy://" ++ domainName release ++ guppyPortString release]

/-- `selection` -/
def footerSelection (acceptingSocket : ℕ) : List ℕ :=
  (if !acceptingSocketIsHttp acceptingSocket && !acceptingSocketIsHttps acceptingSocket then [0] else []) ++
  (if !acceptingSocketIsGopher acceptingSocket then [2] else []) ++
  (if !acceptingSocketIsFinger acceptingSocket then [3] else []) ++
  (if !acceptingSocketIsGemini acceptingSocket then [4] else []) ++
  (if !acceptingSocketIsSpartan acceptingSocket then [5] else []) ++
  (if !acceptingSocketIsNex acceptingSocket then [6] else []) ++
  (if !acceptingSocketIsText acceptingSocket then [7] else []) ++
  (if !acceptingSocketIsGuppy acceptingSocket then [8] else [])

/-- The `reference` to a page in another protocol. -/
def footerReference (release : Bool) (language requestedLanguage : UInt8) (selected : ℕ)
    (resource : List UInt8) : List UInt8 :=
  let languageQuestionStr := languageQuestion language requestedLanguage implicitLanguage
  let languageSlashStr := languageSlash language requestedLanguage implicitLanguage
  let question := acceptingSocketIsQuestion (2 * selected)
  let explicit : Bool := languageQuestionStr ≠ []
  let gopher : Bool := selected = 2
  let nex : Bool := selected = 6
  let resourceNonempty : Bool := resource ≠ []
  let resourceLanguageNonempty := resourceNonempty || gopher || explicit
  let resourceLanguageSlash := !resourceNonempty && !gopher && explicit && !question
  let beginSlash := resourceLanguageNonempty && !resourceLanguageSlash
  let endSlash := nex
  (protocolReferences release).getD selected [] ++
    (if beginSlash then ascii "/" else []) ++
    (if gopher then ascii "1" else []) ++
    resource ++
    (if question then languageQuestionStr else languageSlashStr) ++
    (if endSlash then ascii "/" else [])

/-! ## Footers -/

/-- What is selected is another protocol, and its reference is that of its protocol. -/
theorem mem_footerSelection {acceptingSocket selected : ℕ} (h : selected ∈ footerSelection acceptingSocket) :
    selected ∈ [0, 2, 3, 4, 5, 6, 7, 8] := by
  simp only [footerSelection, List.mem_append] at h
  rcases h with ((((((h | h) | h) | h) | h) | h) | h) | h <;>
  · split_ifs at h
    · rw [List.mem_singleton.mp h]
      decide
    · exact absurd h List.not_mem_nil

theorem protocolReferences_getD (release : Bool) {selected : ℕ} (h : selected ∈ [0, 2, 3, 4, 5, 6, 7, 8]) :
    (protocolReferences release).getD selected []
      = (acceptingSocketProtocol (2 * selected)).reference release := by
  simp only [List.mem_cons, List.not_mem_nil, or_false] at h
  rcases h with rfl | rfl | rfl | rfl | rfl | rfl | rfl | rfl <;> cases release <;> rfl

section

variable {release : Bool} {language : UInt8} (requestedLanguage : UInt8) {selected : ℕ} (page : List UInt8)

/-- The language a client of no language would like is the implicit one. -/
theorem languageExplicit_implicit : languageExplicit language requestedLanguage implicitLanguage
    = languageExplicit language requestedLanguage 0 := by
  simp [languageExplicit, implicitLanguage]

/-- A reference to a protocol whose languages stand behind a slash. -/
theorem footerReference_slash (hlanguage : language = 101 ∨ language = 100)
    (hquestion : acceptingSocketIsQuestion (2 * selected) = false) (hselected : selected ≠ 2) :
    footerReference release language requestedLanguage selected page
      = (protocolReferences release).getD selected [] ++ slashPath ⟨requestedLanguage, 0⟩ language page
        ++ if selected = 6 then ascii "/" else [] := by
  unfold footerReference slashPath LinkLanguages.slash languageQuestion languageSlash
  simp only [languageExplicit_implicit, hquestion]
  generalize languageExplicit language requestedLanguage 0 = explicit
  obtain rfl | rfl := hlanguage <;> cases explicit <;> by_cases hpage : page = [] <;>
    simp [hpage, hselected, ascii]

/-- A reference to a protocol whose languages stand behind a question mark. -/
theorem footerReference_question (hlanguage : language = 101 ∨ language = 100)
    (hquestion : acceptingSocketIsQuestion (2 * selected) = true) (hselected : selected ≠ 2 ∧ selected ≠ 6) :
    footerReference release language requestedLanguage selected page
      = (protocolReferences release).getD selected []
        ++ if page = [] ∧ LinkLanguages.question ⟨requestedLanguage, 0⟩ language = [] then []
          else ascii "/" ++ page ++ LinkLanguages.question ⟨requestedLanguage, 0⟩ language := by
  unfold footerReference LinkLanguages.question languageQuestion languageSlash
  simp only [languageExplicit_implicit, hquestion]
  generalize languageExplicit language requestedLanguage 0 = explicit
  obtain rfl | rfl := hlanguage <;> cases explicit <;> by_cases hpage : page = [] <;>
    simp [hpage, hselected, ascii]

/-- A reference to Gopher has the type of the item in front of the selector. -/
theorem footerReference_gopher :
    footerReference release language requestedLanguage 2 page
      = (protocolReferences release).getD 2 [] ++ (ascii "/1" ++ page ++
        LinkLanguages.slash ⟨requestedLanguage, 0⟩ language) := by
  have hquestion : acceptingSocketIsQuestion (2 * 2) = false := rfl
  unfold footerReference LinkLanguages.slash languageSlash
  simp only [languageExplicit_implicit, hquestion]
  simp [ascii]

end

/-- The path of a page that is the index in the language that is displayed anyway may be empty. -/
theorem emptyPath_linkPath {acceptingSocket : ℕ} {languages : LinkLanguages} {language : UInt8}
    (hquestion : acceptingSocketIsQuestion acceptingSocket = true) (hnil : languages.question language = []) :
    LinkPath acceptingSocket languages language [] [] := by
  refine ⟨rfl, fun c hc => absurd hc (Option.not_mem_none c), fun c hc => absurd hc (Option.not_mem_none c), ?_⟩
  rw [Refers, hquestion]
  exact ⟨0, by rw [hnil]; rfl⟩

section

variable {release : Bool} {target selected : ℕ} {requestedLanguage language : UInt8} {page w : List UInt8}
  {rings : List Ring}
  (htarget : acceptingSocketProtocol target = acceptingSocketProtocol (2 * selected))
  (hlanguage : language = 101 ∨ language = 100) (hpage : IsPage page) (hvisible : page.all isVisible = true)
  (hline : w = urlRequest (acceptingSocketProtocol target)
    (footerReference release language requestedLanguage selected page))
  (hw : w.length < maxRequestSize) (hr : Delivers w 0 rings)
include htarget hlanguage hpage hvisible hline hw hr

/-- A footer of a protocol whose languages stand behind a question mark. -/
theorem follows_footer_question (hselected : selected ∈ [4, 8]) :
    Follows target ⟨requestedLanguage, 0⟩ language page w rings := by
  have hmem : selected ∈ [0, 2, 3, 4, 5, 6, 7, 8] ∧ selected ≠ 2 ∧ selected ≠ 6 ∧
      acceptingSocketIsQuestion (2 * selected) = true ∧
      acceptingSocketProtocol (2 * selected) ∈ [Protocol.gemini, .guppy, .text, .spartan, .finger] := by
    simp only [List.mem_cons, List.not_mem_nil, or_false] at hselected
    rcases hselected with rfl | rfl <;> decide
  obtain ⟨hmem, htwo, hsix, hquestion, hprotocol⟩ := hmem
  have htargetQuestion : acceptingSocketIsQuestion target = true :=
    (acceptingSocketIsQuestion_congr htarget).trans hquestion
  rw [footerReference_question requestedLanguage page hlanguage hquestion ⟨htwo, hsix⟩,
    protocolReferences_getD release hmem, ← htarget] at hline
  rw [← htarget] at hprotocol
  split_ifs at hline with hempty
  · obtain ⟨rfl, hnil⟩ := hempty
    exact (emptyPath_linkPath htargetQuestion hnil).follows_url hw hr release hprotocol hline
  · exact (questionPath_linkPath _ language htargetQuestion hpage hvisible).follows_url hw hr release hprotocol
      hline

/-- A footer of a protocol that takes the path of a URL as it is, and whose languages stand behind a slash. -/
theorem follows_footer_slash (hselected : selected ∈ [3, 5, 7]) :
    Follows target ⟨requestedLanguage, 0⟩ language page w rings := by
  have hmem : selected ∈ [0, 2, 3, 4, 5, 6, 7, 8] ∧ selected ≠ 2 ∧ selected ≠ 6 ∧
      acceptingSocketIsQuestion (2 * selected) = false ∧
      acceptingSocketProtocol (2 * selected) ∈ [Protocol.gemini, .guppy, .text, .spartan, .finger] := by
    simp only [List.mem_cons, List.not_mem_nil, or_false] at hselected
    rcases hselected with rfl | rfl | rfl <;> decide
  obtain ⟨hmem, htwo, hsix, hquestion, hprotocol⟩ := hmem
  have htargetQuestion : acceptingSocketIsQuestion target = false :=
    (acceptingSocketIsQuestion_congr htarget).trans hquestion
  rw [footerReference_slash requestedLanguage page hlanguage hquestion htwo,
    protocolReferences_getD release hmem, ← htarget, if_neg hsix, List.append_nil] at hline
  rw [← htarget] at hprotocol
  exact (slashPath_linkPath _ language htargetQuestion hpage hvisible).follows_url hw hr release hprotocol hline

/-- A footer of Gopher or Nex. -/
theorem follows_footer_selector (hselected : selected ∈ [2, 6]) :
    Follows target ⟨requestedLanguage, 0⟩ language page w rings := by
  simp only [List.mem_cons, List.not_mem_nil, or_false] at hselected
  rcases hselected with rfl | rfl
  · have hprotocol : acceptingSocketProtocol target = .gopher := htarget
    have hfirst : ∀ c ∈ (ascii "/1" ++ page ++ LinkLanguages.slash ⟨requestedLanguage, 0⟩ language).head?,
        c = 47 := fun c hc => (Option.some.inj hc).symm
    obtain ⟨-, hpath⟩ := urlParts_reference release .gopher hfirst
    rw [footerReference_gopher, protocolReferences_getD release (by decide), ← htarget, hprotocol] at hline
    simp only [urlRequest, hpath] at hline
    exact follows_page_gopher hw hr hvisible hprotocol hline
  · have hprotocol : acceptingSocketProtocol target = .nex := htarget
    have hquestion : acceptingSocketIsQuestion target = false := acceptingSocketIsQuestion_congr htarget
    have hlink := slashPath_linkPath ⟨requestedLanguage, 0⟩ language hquestion hpage hvisible
    have hfirst : ∀ c ∈ (slashPath ⟨requestedLanguage, 0⟩ language page ++ ascii "/").head?, c = 47 := by
      have hfirst := hlink.first
      generalize slashPath ⟨requestedLanguage, 0⟩ language page = path at hfirst ⊢
      cases path with
      | nil => exact fun c hc => (Option.some.inj hc).symm
      | cons => exact hfirst
    obtain ⟨-, hpath⟩ := urlParts_reference release .nex hfirst
    rw [footerReference_slash requestedLanguage page hlanguage rfl (by decide),
      protocolReferences_getD release (by decide), ← htarget, hprotocol, if_pos rfl, List.append_assoc] at hline
    simp only [urlRequest, hpath] at hline
    exact hlink.follows_nex hw hr hprotocol hline

end

/-- A footer requests the same page in the same language. -/
theorem follows_footer {release : Bool} {acceptingSocket target selected : ℕ}
    (hselected : selected ∈ footerSelection acceptingSocket) (hne : selected ≠ 0)
    (htarget : acceptingSocketProtocol target = acceptingSocketProtocol (2 * selected))
    {requestedLanguage language : UInt8} (hlanguage : language = 101 ∨ language = 100)
    {page : List UInt8} (hpage : IsPage page) (hvisible : page.all isVisible = true) {w : List UInt8}
    (hline : w = urlRequest (acceptingSocketProtocol target)
      (footerReference release language requestedLanguage selected page))
    (hw : w.length < maxRequestSize) {rings : List Ring} (hr : Delivers w 0 rings) :
    Follows target ⟨requestedLanguage, 0⟩ language page w rings := by
  have hmem := mem_footerSelection hselected
  have hcases : selected ∈ [4, 8] ∨ selected ∈ [3, 5, 7] ∨ selected ∈ [2, 6] := by
    simp only [List.mem_cons, List.not_mem_nil, or_false] at hmem ⊢
    omega
  obtain h | h | h := hcases
  · exact follows_footer_question htarget hlanguage hpage hvisible hline hw hr h
  · exact follows_footer_slash htarget hlanguage hpage hvisible hline hw hr h
  · exact follows_footer_selector htarget hlanguage hpage hvisible hline hw hr h

/-- Whoever follows a reference of a footer, from whatever protocol, gets the same page in the same language
in the other one, except for the reference to HTTP, where the client's own languages may decide. -/
theorem footerReference_leadsTo (release : Bool) {acceptingSocket target selected : ℕ}
    (hselected : selected ∈ footerSelection acceptingSocket) (hne : selected ≠ 0)
    (htarget : acceptingSocketProtocol target = acceptingSocketProtocol (2 * selected))
    (requestedLanguage : UInt8) {language : UInt8} (hlanguage : language = 101 ∨ language = 100)
    {page : List UInt8} (hpage : IsPage page) (hvisible : page.all isVisible = true) {w : List UInt8}
    (hline : w = urlRequest (acceptingSocketProtocol target)
      (footerReference release language requestedLanguage selected page))
    (hw : w.length < maxRequestSize) {rings : List Ring} (hr : Delivers w 0 rings) :
    LeadsTo target w rings page language :=
  (follows_footer hselected hne htarget hlanguage hpage hvisible hline hw hr).leadsTo hpage hlanguage

/-- The line for the German page about the author, in Gopher. -/
def aboutSelector : List UInt8 := ascii "about/de\r\n"

/-- The German page about the author, from the footer of HTTPS to Gopher. -/
theorem footerReference_leadsTo_about :
    LeadsTo 5 aboutSelector [contiguousRing (aboutSelector.take 6), contiguousRing aboutSelector]
      (ascii "about") 100 := by
  have hpage : IsPage (ascii "about") :=
    ⟨forall_mem_of_all rfl, by decide, by decide, by decide⟩
  have hselected : 2 ∈ footerSelection 2 := by decide
  have hdelivers : Delivers aboutSelector 0
      [contiguousRing (aboutSelector.take 6), contiguousRing aboutSelector] :=
    ⟨⟨rfl, by decide, by decide⟩, by decide, by decide, ⟨rfl, by decide, by decide⟩, by decide, by decide, rfl⟩
  exact footerReference_leadsTo true hselected (by decide) (by rfl) 100 (.inr rfl) hpage (by decide) (by rfl)
    (by decide) hdelivers

/-! ## Links -/

/-- A link of a displayed page: the accepting socket a client that follows it connects to, the line it sends,
and the page and the language the link is for. -/
structure SiteLink where
  acceptingSocket : ℕ
  line : List UInt8
  page : List UInt8
  language : UInt8
deriving DecidableEq, Repr

/-- The links of a displayed page to the protocols of one line. Their requests say nothing of the language a
client would like. A client of another protocol connects to either of the sockets of the protocol. -/
def Displayed.links (release : Bool) (d : Displayed) : List SiteLink :=
  (internalReferences d.page d.language).map (fun reference =>
    ⟨d.acceptingSocket, referenceRequest release d.acceptingSocket ⟨d.requestedLanguage, 0⟩
      reference.language reference.resource, reference.resource, reference.language⟩) ++
  ((footerSelection d.acceptingSocket).filter (· ≠ 0)).flatMap fun selected =>
    [2 * selected, 2 * selected + 1].map fun target =>
      ⟨target, urlRequest (acceptingSocketProtocol target)
        (footerReference release d.language d.requestedLanguage selected d.page), d.page, d.language⟩

/-- A page of the site, in a language of the site, in a protocol of one line. -/
structure Displayed.Valid (d : Displayed) : Prop where
  page : d.page ∈ pages
  language : d.language = 101 ∨ d.language = 100
  protocol : acceptingSocketProtocol d.acceptingSocket ≠ .http ∧
    acceptingSocketProtocol d.acceptingSocket ≠ .https

/-- A line displays something: it has arrived in some pieces, with something behind it. -/
def Shows (acceptingSocket : ℕ) (w : List UInt8) (d : Displayed) : Prop :=
  ∃ (rings : List Ring) (s : Progress) (lookup : Lookup) (more : List UInt8) (value : ConstantValue),
    Delivers w 0 rings ∧ parserParses acceptingSocket rings Progress.zero = .ok () s ∧
    Reads lookup (w ++ more) ∧ lookup s.request.resource = .ok value ∧
    processorGenericDisplay acceptingSocket s.request.language value = some d

/-- A client follows a link. -/
def Follow (release : Bool) (d d' : Displayed) : Prop :=
  ∃ link ∈ d.links release, Shows link.acceptingSocket link.line d'

/-- The pages are pages, and their names are in lower case. -/
theorem isPage_of_mem {page : List UInt8} (h : page ∈ pages) :
    IsPage page ∧ page.all isVisible = true ∧ page.map lowerCase = page ∧ page.length ≤ 12 := by
  have hmarks : ∀ {bytes : List UInt8}, bytes.all (fun c => !isMark c) = true →
      ∀ c ∈ bytes, isMark c = false := fun h => forall_mem_of_all h
  simp only [pages, List.mem_cons, List.not_mem_nil, or_false] at h
  rcases h with rfl | rfl | rfl | rfl | rfl | rfl | rfl <;>
    exact ⟨⟨hmarks rfl, by decide, by decide, by decide⟩, rfl, rfl, by decide⟩

/-- A resource that resolves to a page of the site is displayed. -/
theorem ResolvesTo.display {acceptingSocket : ℕ} {page : List UInt8} {language : UInt8} {lookup : Lookup}
    {request : Request} (h : ResolvesTo acceptingSocket page language lookup request) (hpage : page ∈ pages) :
    ∃ value d, lookup request.resource = .ok value ∧
      processorGenericDisplay acceptingSocket request.language value = some d ∧
      d.acceptingSocket = acceptingSocket ∧ d.page = page ∧ d.language = language := by
  obtain ⟨value, hvalue, hbytes, hlanguage⟩ := h
  have hcompare : valueCompareCaseMem
      (processorGenericResolve acceptingSocket request.language value).1 = fun known => page == known := by
    funext known
    rw [Bool.eq_iff_iff, valueCompareCaseMem_iff, hbytes, (isPage_of_mem hpage).2.2.1, beq_iff_eq]
  have hfind : pages.find? (fun known => page == known) = some page := by
    simp only [pages, List.mem_cons, List.not_mem_nil, or_false] at hpage
    rcases hpage with rfl | rfl | rfl | rfl | rfl | rfl | rfl <;> rfl
  rw [← hcompare] at hfind
  have hdisplay : processorGenericDisplay acceptingSocket request.language value
      = some ⟨acceptingSocket, page, (processorGenericResolve acceptingSocket request.language value).2,
        if acceptingSocketIsQuestion acceptingSocket then (processorGenericNormalizeQuestion value).2
        else (processorGenericNormalizeSlash value).2⟩ := by
    simp only [processorGenericDisplay, hfind, Option.map_some]
  exact ⟨value, _, hvalue, hdisplay, rfl, rfl, hlanguage⟩

/-! ## What is displayed -/

/-- A language of the site, or none. -/
def KnownLanguage (language : UInt8) : Prop := language = 0 ∨ language = 101 ∨ language = 100

theorem languageGet_known (language0 language1 : UInt8) (languageSize : ℕ) :
    KnownLanguage (languageGet language0 language1 languageSize) := by
  unfold languageGet KnownLanguage
  split_ifs <;> decide

/-- Behind a question mark nothing but a language is found. -/
theorem langLoop_known (bytes : List UInt8) (s : LangParser) : KnownLanguage (langLoop bytes s) := by
  induction bytes generalizing s with
  | nil =>
    rw [langLoop]
    split_ifs
    · exact languageGet_known _ _ _
    · exact .inl rfl
  | cons c rest ih =>
    rw [langLoop]
    split_ifs
    · exact languageGet_known _ _ _
    · exact ih _

theorem processorGenericNormalizeQuestion_known (resource : ConstantValue) :
    KnownLanguage (processorGenericNormalizeQuestion resource).2 := by
  unfold processorGenericNormalizeQuestion
  dsimp only
  split
  · exact .inl rfl
  · split_ifs
    · exact .inl rfl
    · exact langLoop_known _ _

theorem processorGenericNormalizeSlash_known (resource : ConstantValue) :
    KnownLanguage (processorGenericNormalizeSlash resource).2 := by
  rw [congrArg Prod.snd (processorGenericNormalizeSlash_bytes resource), slashLanguage_snd, segmentLanguage]
  unfold KnownLanguage
  split_ifs <;> decide

/-- Whatever resource is asked for, a page is displayed in a language of the site. -/
theorem processorGenericDisplay_valid {acceptingSocket : ℕ}
    (hprotocol : acceptingSocketProtocol acceptingSocket ≠ .http ∧
      acceptingSocketProtocol acceptingSocket ≠ .https)
    {requestLanguage : UInt8} (hrequest : KnownLanguage requestLanguage) {resource : ConstantValue}
    {d : Displayed} (h : processorGenericDisplay acceptingSocket requestLanguage resource = some d) :
    d.Valid := by
  have hlanguage : (processorGenericResolve acceptingSocket requestLanguage resource).2 = 101 ∨
      (processorGenericResolve acceptingSocket requestLanguage resource).2 = 100 := by
    have hrequested : KnownLanguage (if acceptingSocketIsQuestion acceptingSocket
        then processorGenericNormalizeQuestion resource else processorGenericNormalizeSlash resource).2 := by
      split_ifs
      · exact processorGenericNormalizeQuestion_known resource
      · exact processorGenericNormalizeSlash_known resource
    unfold processorGenericResolve
    dsimp only
    generalize (if acceptingSocketIsQuestion acceptingSocket then processorGenericNormalizeQuestion resource
      else processorGenericNormalizeSlash resource).2 = requestedLanguage at hrequested ⊢
    obtain rfl | rfl | rfl := hrequested
    · obtain rfl | rfl | rfl := hrequest <;> decide
    · exact .inl rfl
    · exact .inr rfl
  obtain ⟨page, hfind, rfl⟩ := Option.map_eq_some_iff.mp h
  exact ⟨List.mem_of_find?_eq_some hfind, hlanguage, hprotocol⟩

/-! ## Browsing -/

theorem length_languageQuestion_le (language explicitRequest implicitRequest : UInt8) :
    (languageQuestion language explicitRequest implicitRequest).length ≤ 8 := by
  obtain h | h | h := languageQuestion_cases language explicitRequest implicitRequest <;> rw [h] <;> decide

theorem length_languageSlash_le (language explicitRequest implicitRequest : UInt8) :
    (languageSlash language explicitRequest implicitRequest).length ≤ 3 := by
  obtain h | h | h := languageSlash_cases language explicitRequest implicitRequest <;> rw [h] <;> decide

theorem length_slashPath_le (languages : LinkLanguages) (language : UInt8) (page : List UInt8) :
    (slashPath languages language page).length ≤ page.length + 4 := by
  have hlanguage : (languages.slash language).length ≤ 3 := length_languageSlash_le _ _ _
  rw [slashPath, List.length_append, List.length_append]
  split_ifs
  · simp only [List.length_nil]
    omega
  · have hslash : (ascii "/").length = 1 := rfl
    omega

theorem length_reference_le (release : Bool) (protocol : Protocol) :
    (protocol.reference release).length ≤ 24 := by
  cases release <;> cases protocol <;> decide

/-- A line is not much longer than the URL it is made of. -/
theorem length_urlRequest_le (protocol : Protocol) (url : List UInt8) :
    (urlRequest protocol url).length ≤ 2 * url.length + 6 := by
  have hrest : (urlRest url).length ≤ url.length := by
    rw [urlRest, List.length_drop]
    have hdrop := (List.dropWhile_suffix (p := fun c => c != 58) (l := url)).length_le
    omega
  have hhost : (urlHost url).length ≤ (urlRest url).length := (List.takeWhile_prefix _).length_le
  have hpath : (urlPath url).length ≤ (urlRest url).length :=
    (List.dropWhile_suffix (p := fun c => c != 47) (l := urlRest url)).length_le
  have hcrlf : crlf.length = 2 := rfl
  have hslash : (if urlPath url = [] then ascii "/" else urlPath url).length ≤ (urlPath url).length + 1 := by
    split_ifs
    · exact Nat.le_add_left 1 _
    · exact Nat.le_succ _
  have hspace : (ascii " ").length = 1 := rfl
  have hzero : (ascii " 0").length = 2 := rfl
  unfold urlRequest
  cases protocol <;> simp only [List.length_append, List.length_drop, List.length_nil] <;> omega

/-- `char reference[64]` holds the reference of a footer and its terminator. -/
theorem length_footerReference_le (release : Bool) (language requestedLanguage : UInt8) {selected : ℕ}
    (hselected : selected ∈ [0, 2, 3, 4, 5, 6, 7, 8]) {page : List UInt8} (hpage : page ∈ pages) :
    (footerReference release language requestedLanguage selected page).length + 1 ≤ 64 := by
  have hlength := (isPage_of_mem hpage).2.2.2
  have hreference := length_reference_le release (acceptingSocketProtocol (2 * selected))
  rw [← protocolReferences_getD release hselected] at hreference
  have hquestion := length_languageQuestion_le language requestedLanguage implicitLanguage
  have hslash := length_languageSlash_le language requestedLanguage implicitLanguage
  have hone : (ascii "1").length = 1 := rfl
  have hbar : (ascii "/").length = 1 := rfl
  unfold footerReference
  simp only [List.length_append, apply_ite List.length, List.length_nil]
  split_ifs <;> omega

theorem length_referenceRequest_le (release : Bool) (acceptingSocket : ℕ) (languages : LinkLanguages)
    (language : UInt8) (page : List UInt8) :
    (referenceRequest release acceptingSocket languages language page).length ≤ 2 * page.length + 80 := by
  have hquestion : (languages.question language).length ≤ 8 := length_languageQuestion_le _ _ _
  have hslash : (languages.slash language).length ≤ 3 := length_languageSlash_le _ _ _
  have hpath := length_slashPath_le languages language page
  have hcrlf : crlf.length = 2 := rfl
  have hbar : (ascii "/").length = 1 := rfl
  -- a url names the language in its path or in its question, and both are short
  have hpathRequest : ∀ protocol : Protocol,
      (urlRequest protocol (protocol.reference release ++ slashPath languages language page)).length
        ≤ 2 * page.length + 80 := by
    intro protocol
    have hrequest := length_urlRequest_le protocol
      (protocol.reference release ++ slashPath languages language page)
    have hreference := length_reference_le release protocol
    rw [List.length_append] at hrequest
    omega
  have hquestionRequest : ∀ protocol : Protocol,
      (urlRequest protocol (protocol.reference release ++ ascii "/" ++ page
        ++ languages.question language)).length ≤ 2 * page.length + 80 := by
    intro protocol
    have hrequest := length_urlRequest_le protocol
      (protocol.reference release ++ ascii "/" ++ page ++ languages.question language)
    have hreference := length_reference_le release protocol
    simp only [List.length_append] at hrequest
    omega
  unfold referenceRequest
  cases acceptingSocketProtocol acceptingSocket with
  | gemini => exact hquestionRequest .gemini
  | guppy => exact hquestionRequest .guppy
  | text => exact hpathRequest .text
  | spartan => exact hpathRequest .spartan
  | finger => exact hpathRequest .finger
  | gopher =>
    simp only [List.length_append]
    omega
  | nex =>
    simp only [nexPath, List.length_append]
    omega
  | http | https => exact Nat.zero_le _

section

variable {release : Bool} {d d' : Displayed}

/-- A page refers to pages of the site. -/
theorem internalReferences_valid {page : List UInt8} (hpage : page ∈ pages) {language : UInt8}
    (hlanguage : language = 101 ∨ language = 100) {reference : InternalReference}
    (h : reference ∈ internalReferences page language) :
    reference.resource ∈ pages ∧ (reference.language = 101 ∨ reference.language = 100) := by
  have hreferences : ∀ page ∈ pages, ∀ language ∈ [(101 : UInt8), 100],
      ∀ reference ∈ internalReferences page language,
        reference.resource ∈ pages ∧ reference.language ∈ [(101 : UInt8), 100] := by
    decide +kernel
  have hmem : language ∈ [(101 : UInt8), 100] := by simpa using hlanguage
  obtain ⟨hresource, hlanguage⟩ := hreferences page hpage language hmem reference h
  exact ⟨hresource, by simpa using hlanguage⟩

/-- The protocol of a footer is one of one line, and both of its sockets have it. -/
theorem footerSelection_protocol {acceptingSocket selected target : ℕ}
    (hselected : selected ∈ footerSelection acceptingSocket) (hne : selected ≠ 0)
    (htarget : target ∈ [2 * selected, 2 * selected + 1]) :
    acceptingSocketProtocol target = acceptingSocketProtocol (2 * selected) ∧
      acceptingSocketProtocol target ≠ .http ∧ acceptingSocketProtocol target ≠ .https := by
  have hmem := mem_footerSelection hselected
  simp only [List.mem_cons, List.not_mem_nil, or_false] at hmem htarget
  rcases hmem with rfl | rfl | rfl | rfl | rfl | rfl | rfl | rfl
  · exact absurd rfl hne
  all_goals rcases htarget with rfl | rfl <;> exact ⟨rfl, by decide, by decide⟩

/-- The links of a page of the site lead where they are meant to. -/
theorem Displayed.Valid.link (hd : d.Valid) {link : SiteLink} (hlink : link ∈ d.links release) :
    link.page ∈ pages ∧ (link.language = 101 ∨ link.language = 100) ∧
      (acceptingSocketProtocol link.acceptingSocket ≠ .http ∧
        acceptingSocketProtocol link.acceptingSocket ≠ .https) ∧
      link.line.length < maxRequestSize ∧
      ∀ rings, Delivers link.line 0 rings →
        LeadsTo link.acceptingSocket link.line rings link.page link.language := by
  have hlarge : 2 ^ 10 < maxRequestSize := by decide
  obtain hlink | hlink := List.mem_append.mp hlink
  · obtain ⟨reference, hreference, rfl⟩ := List.mem_map.mp hlink
    obtain ⟨hpage, hlanguage⟩ := internalReferences_valid hd.page hd.language hreference
    obtain ⟨hIsPage, hvisible, -, hlength⟩ := isPage_of_mem hpage
    have hline := length_referenceRequest_le release d.acceptingSocket ⟨d.requestedLanguage, 0⟩
      reference.language reference.resource
    have hw : (referenceRequest release d.acceptingSocket ⟨d.requestedLanguage, 0⟩ reference.language
        reference.resource).length < maxRequestSize := by omega
    exact ⟨hpage, hlanguage, hd.protocol, hw, fun rings hr =>
      (follows_reference hw hr hIsPage hvisible hd.protocol rfl).leadsTo hIsPage hlanguage⟩
  · obtain ⟨selected, hselected, hlink⟩ := List.mem_flatMap.mp hlink
    obtain ⟨target, htarget, rfl⟩ := List.mem_map.mp hlink
    obtain ⟨hselected, hne⟩ := List.mem_filter.mp hselected
    have hne : selected ≠ 0 := of_decide_eq_true hne
    obtain ⟨hsame, hprotocol⟩ := footerSelection_protocol hselected hne htarget
    obtain ⟨hIsPage, hvisible, -, -⟩ := isPage_of_mem hd.page
    have hurl := length_footerReference_le release d.language d.requestedLanguage
      (mem_footerSelection hselected) hd.page
    have hline := length_urlRequest_le (acceptingSocketProtocol target)
      (footerReference release d.language d.requestedLanguage selected d.page)
    have hw : (urlRequest (acceptingSocketProtocol target)
        (footerReference release d.language d.requestedLanguage selected d.page)).length < maxRequestSize := by
      omega
    exact ⟨hd.page, hd.language, hprotocol, hw, fun rings hr =>
      (follows_footer hselected hne hsame hd.language hIsPage hvisible rfl hw hr).leadsTo hIsPage hd.language⟩

/-- A link is followed to what it is for, whatever pieces its line arrives in. -/
theorem Displayed.Valid.shows (hd : d.Valid) {link : SiteLink} (hlink : link ∈ d.links release)
    (hshows : Shows link.acceptingSocket link.line d') :
    d'.acceptingSocket = link.acceptingSocket ∧ d'.page = link.page ∧ d'.language = link.language := by
  obtain ⟨hpage, -, -, -, hleads⟩ := hd.link hlink
  obtain ⟨rings, s, lookup, more, value, hr, hparses, hreads, hvalue, hdisplay⟩ := hshows
  obtain ⟨t, hparses', -, -, hresolves⟩ := hleads rings hr
  obtain ⟨-, rfl⟩ := Outcome.ok.inj (hparses.symm.trans hparses')
  obtain ⟨value', shown, hvalue', hdisplay', hfields⟩ := (hresolves lookup more hreads).display hpage
  obtain rfl := Except.ok.inj (hvalue.symm.trans hvalue')
  obtain rfl := Option.some.inj (hdisplay.symm.trans hdisplay')
  exact hfields

theorem Displayed.Valid.follow (hd : d.Valid) (hfollow : Follow release d d') : d'.Valid := by
  obtain ⟨link, hlink, hshows⟩ := hfollow
  obtain ⟨hsocket, hpage, hlanguage⟩ := hd.shows hlink hshows
  obtain ⟨hmem, hvalid, hprotocol, -, -⟩ := hd.link hlink
  exact ⟨hpage ▸ hmem, hlanguage ▸ hvalid, hsocket ▸ hprotocol⟩

/-- Whoever browses stays on pages of the site. -/
theorem Displayed.Valid.browse (hd : d.Valid) (hrun : Relation.ReflTransGen (Follow release) d d') :
    d'.Valid := by
  induction hrun with
  | refl => exact hd
  | tail _ hfollow ih => exact ih.follow hfollow

end

/-- Every protocol of one line but its own is in the footer of a page. -/
theorem mem_footerSelection_of_ne {acceptingSocket selected : ℕ} (hselected : selected ∈ [2, 3, 4, 5, 6, 7, 8])
    (hne : acceptingSocketProtocol acceptingSocket ≠ acceptingSocketProtocol (2 * selected)) :
    selected ∈ footerSelection acceptingSocket := by
  by_contra hnot
  apply hne
  simp only [List.mem_cons, List.not_mem_nil, or_false] at hselected
  unfold acceptingSocketProtocol
  rcases hselected with rfl | rfl | rfl | rfl | rfl | rfl | rfl <;>
    simp [footerSelection, acceptingSocketIsHttp, acceptingSocketIsHttps, acceptingSocketIsGopher,
      acceptingSocketIsFinger, acceptingSocketIsGemini, acceptingSocketIsSpartan, acceptingSocketIsNex,
      acceptingSocketIsText, acceptingSocketIsGuppy] at hnot ⊢ <;>
    split_ifs <;> first | rfl | omega

/-- The pages refer to themselves in the other language, to the index, and from there to each other. -/
theorem mem_internalReferences {page : List UInt8} (hpage : page ∈ pages) {language : UInt8}
    (hlanguage : language = 101 ∨ language = 100) :
    (∀ other : UInt8, other = 101 ∨ other = 100 → other ≠ language →
        ⟨page, other⟩ ∈ internalReferences page language) ∧
      (page ≠ [] → ⟨[], language⟩ ∈ internalReferences page language ∧
        ⟨page, language⟩ ∈ internalReferences [] language) := by
  have hreferences : ∀ page ∈ pages, ∀ language ∈ [(101 : UInt8), 100],
      (∀ other ∈ [(101 : UInt8), 100], other ≠ language → ⟨page, other⟩ ∈ internalReferences page language) ∧
        (page ≠ [] → ⟨[], language⟩ ∈ internalReferences page language ∧
          ⟨page, language⟩ ∈ internalReferences [] language) := by
    decide +kernel
  obtain ⟨hother, hindex⟩ := hreferences page hpage language (by simpa using hlanguage)
  exact ⟨fun other h => hother other (by simpa using h), hindex⟩

/-- A client can browse from what is displayed to a page in a language at an accepting socket. -/
def Reaches (release : Bool) (d : Displayed) (acceptingSocket : ℕ) (page : List UInt8) (language : UInt8) :
    Prop :=
  ∃ d', Relation.ReflTransGen (Follow release) d d' ∧ d'.acceptingSocket = acceptingSocket ∧ d'.page = page ∧
    d'.language = language

section

variable {release : Bool} {d : Displayed} {acceptingSocket : ℕ} {page : List UInt8} {language : UInt8}

/-- One link more is followed. -/
theorem Reaches.follow (hd : d.Valid) (h : Reaches release d acceptingSocket page language) {target : ℕ}
    {page' : List UInt8} {language' : UInt8}
    (hlink : ∀ d' : Displayed, d'.acceptingSocket = acceptingSocket → d'.page = page → d'.language = language →
      ∃ line, ⟨target, line, page', language'⟩ ∈ d'.links release) :
    Reaches release d target page' language' := by
  obtain ⟨d', hrun, hsocket, hpage, hlanguage⟩ := h
  have hvalid := hd.browse hrun
  obtain ⟨line, hmem⟩ := hlink d' hsocket hpage hlanguage
  obtain ⟨hsite, -, -, hw, hleads⟩ := hvalid.link hmem
  have hsize : line.length < 2 ^ 64 := lt_trans hw (by decide)
  have hdelivers : Delivers line 0 [contiguousRing line] :=
    ⟨contiguousRing_sound line, Nat.zero_le _,
      (ringContent_contiguousRing line).trans (List.take_length).symm, rfl⟩
  obtain ⟨s, hparses, -, -, hresolves⟩ := hleads _ hdelivers
  have hreads : Reads (ringLookup (contiguousRing line)) (line ++ []) := by
    rw [List.append_nil]
    exact contiguousRing_reads hsize
  obtain ⟨value, shown, hvalue, hdisplay, hfields⟩ := (hresolves _ [] hreads).display hsite
  have hshows : Shows target line shown :=
    ⟨_, s, _, [], value, hdelivers, hparses, hreads, hvalue, hdisplay⟩
  exact ⟨shown, hrun.tail ⟨_, hmem, hshows⟩, hfields⟩

/-- An internal reference is followed. -/
theorem Reaches.internal (hd : d.Valid) (h : Reaches release d acceptingSocket page language)
    {reference : InternalReference} (hmem : reference ∈ internalReferences page language) :
    Reaches release d acceptingSocket reference.resource reference.language := by
  refine h.follow hd ?_
  rintro d' rfl rfl rfl
  exact ⟨_, List.mem_append_left _ (List.mem_map.mpr ⟨reference, hmem, rfl⟩)⟩

/-- A reference to another protocol is followed. -/
theorem Reaches.footer (hd : d.Valid) (h : Reaches release d acceptingSocket page language) {target : ℕ}
    (htarget : 4 ≤ target ∧ target < acceptingSockets)
    (hne : acceptingSocketProtocol acceptingSocket ≠ acceptingSocketProtocol target) :
    Reaches release d target page language := by
  refine h.follow hd ?_
  rintro d' rfl rfl rfl
  obtain ⟨hlow, hhigh⟩ := htarget
  have hselected : target / 2 ∈ [2, 3, 4, 5, 6, 7, 8] := by
    simp only [acceptingSockets] at hhigh
    simp only [List.mem_cons, List.not_mem_nil, or_false]
    omega
  have hzero : target / 2 ≠ 0 := by omega
  have hpair : target ∈ [2 * (target / 2), 2 * (target / 2) + 1] := by
    simp only [List.mem_cons, List.not_mem_nil, or_false]
    omega
  have hprotocol : acceptingSocketProtocol target = acceptingSocketProtocol (2 * (target / 2)) := by
    simp only [List.mem_cons, List.not_mem_nil, or_false] at hselected hpair
    generalize target / 2 = selected at hselected hpair
    rcases hselected with rfl | rfl | rfl | rfl | rfl | rfl | rfl <;> rcases hpair with rfl | rfl <;> rfl
  have hfooter := mem_footerSelection_of_ne hselected (hprotocol ▸ hne)
  exact ⟨_, List.mem_append_right _ (List.mem_flatMap.mpr
    ⟨target / 2, List.mem_filter.mpr ⟨hfooter, decide_eq_true hzero⟩, List.mem_map.mpr ⟨target, hpair, rfl⟩⟩)⟩

end

/-- Every page can be reached from every other by following links: in every language, and at every accepting
socket of a protocol of one line. -/
theorem browse_reaches (release : Bool) {acceptingSocket : ℕ}
    (hprotocol : acceptingSocketProtocol acceptingSocket ≠ .http ∧
      acceptingSocketProtocol acceptingSocket ≠ .https)
    {resource : ConstantValue} {d : Displayed}
    (hdisplay : processorGenericDisplay acceptingSocket 0 resource = some d)
    {target : ℕ} (htarget : 4 ≤ target ∧ target < acceptingSockets) {page : List UInt8}
    (hpage : page ∈ pages) {language : UInt8} (hlanguage : language = 101 ∨ language = 100) :
    Reaches release d target page language := by
  have hd := processorGenericDisplay_valid hprotocol (.inl rfl) hdisplay
  have hstart : Reaches release d d.acceptingSocket d.page d.language := ⟨d, .refl, rfl, rfl, rfl⟩
  -- the language, the index, the page, and the protocol, one after the other
  have htranslated : Reaches release d d.acceptingSocket d.page language := by
    obtain rfl | hne := eq_or_ne language d.language
    · exact hstart
    · exact hstart.internal hd ((mem_internalReferences hd.page hd.language).1 language hlanguage hne)
  have hindex : Reaches release d d.acceptingSocket [] language := by
    obtain hnil | hne := eq_or_ne d.page []
    · rwa [hnil] at htranslated
    · exact htranslated.internal hd ((mem_internalReferences hd.page hlanguage).2 hne).1
  have hturned : Reaches release d d.acceptingSocket page language := by
    obtain rfl | hne := eq_or_ne page []
    · exact hindex
    · exact hindex.internal hd ((mem_internalReferences hpage hlanguage).2 hne).2
  by_cases hsame : acceptingSocketProtocol d.acceptingSocket = acceptingSocketProtocol target
  · -- through any other protocol to the other socket
    by_cases hgopher : acceptingSocketProtocol target = .gopher
    · have hnex : acceptingSocketProtocol 12 = .nex := rfl
      have haway : Reaches release d 12 page language := by
        refine hturned.footer hd (by decide) ?_
        rw [hsame, hgopher, hnex]
        decide
      refine haway.footer hd htarget ?_
      rw [hgopher, hnex]
      decide
    · have hfour : acceptingSocketProtocol 4 = .gopher := rfl
      have haway : Reaches release d 4 page language := by
        refine hturned.footer hd (by decide) ?_
        rw [hsame, hfour]
        exact hgopher
      refine haway.footer hd htarget ?_
      rw [hfour]
      exact fun h => hgopher h.symm
  · exact hturned.footer hd htarget hsame

/-- From the English index in Gemini to the German resume in Finger. -/
theorem browse_reaches_resume : Reaches true ⟨8, ascii "", 101, 0⟩ 6 (ascii "resume") 100 := by
  have hdisplay : processorGenericDisplay 8 0 ⟨ascii "/", []⟩ = some ⟨8, ascii "", 101, 0⟩ := by
    decide +kernel
  exact browse_reaches true (by decide) hdisplay (by decide) (by decide) (.inr rfl)

end Twinkleshine
