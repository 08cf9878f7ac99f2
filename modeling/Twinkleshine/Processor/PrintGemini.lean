import Twinkleshine.Library.Gemtext
import Twinkleshine.Processor.PrintBody
import Twinkleshine.Processor.PrintGopher

/-!
# Printing gemtext

Reference: `processor_print_gemini` in `source/processor/gemini_processor.c`, `processor_print_spartan` in
`source/processor/spartan_processor.c`, `processor_print_guppy` in `source/processor/guppy_processor.c`.

The three protocols share the text and differ in the status in front of it and in the URLs of internal
references. Guppy cuts the finished page into a message.
-/

namespace Twinkleshine

open Library

/-! ## URLs -/

/-- A port behind a domain name, unless it is the port of the protocol, as in a release. -/
def portString (release : Bool) (port : List UInt8) : List UInt8 :=
  if release then [] else ascii ":" ++ port

/-- `GEMINI_PORT_STRING` -/
def geminiPortString (release : Bool) : List UInt8 := portString release (ascii "9965")

/-- `SPARTAN_PORT_STRING` -/
def spartanPortString (release : Bool) : List UInt8 := portString release (ascii "8300")

/-- `GUPPY_PORT_STRING` -/
def guppyPortString (release : Bool) : List UInt8 := portString release (ascii "14775")

/-- `language_question` of a link -/
def LinkLanguages.question (languages : LinkLanguages) (language : UInt8) : List UInt8 :=
  languageQuestion language languages.requestedLanguage languages.requestLanguage

/-- `language_slash` of a link -/
def LinkLanguages.slash (languages : LinkLanguages) (language : UInt8) : List UInt8 :=
  languageSlash language languages.requestedLanguage languages.requestLanguage

/-- The path of an internal reference in the protocols whose languages stand behind a slash. -/
def slashPath (languages : LinkLanguages) (language : UInt8) (resource : List UInt8) : List UInt8 :=
  (if resource = [] then [] else ascii "/") ++ resource ++ languages.slash language

/-- The URL of an internal reference in Gemini. -/
def geminiUrl (release : Bool) (languages : LinkLanguages) (language : UInt8) (resource : List UInt8) :
    List UInt8 :=
  ascii "gemini://" ++ domainName release ++ geminiPortString release ++ ascii "/" ++ resource
    ++ languages.question language

/-- The URL of an internal reference in Spartan. -/
def spartanUrl (release : Bool) (languages : LinkLanguages) (language : UInt8) (resource : List UInt8) :
    List UInt8 :=
  ascii "spartan://" ++ domainName release ++ spartanPortString release
    ++ slashPath languages language resource

/-- The URL of an internal reference in Guppy. -/
def guppyUrl (release : Bool) (languages : LinkLanguages) (language : UInt8) (resource : List UInt8) :
    List UInt8 :=
  ascii "guppy://" ++ domainName release ++ guppyPortString release ++ ascii "/" ++ resource
    ++ languages.question language

/-! ## Printing -/

/-- Prefix -/
def prefixGemini (release : Bool) (context : PrintContext) (style : EntryStyle) (resource : List UInt8) :
    List UInt8 :=
  match style with
  | .normal | .paragraph => crlf
  | .itemize => ascii "* "
  | .enumeration => decimal context.listIndex ++ ascii ". "
  | .quote => ascii "> "
  | .large => ascii "### "
  | .larger => ascii "## "
  | .largest | .header => ascii "# "
  | .internalReference =>
    ascii "=> " ++ geminiUrl release context.languages context.language resource ++ ascii " "
  | _ => ascii "=> " ++ resource ++ ascii " "

/-- `processor_print_gemini` -/
def processorPrintGemini (refusal : Refusal) (release : Bool) : PrintFunction :=
  fun context style resource text =>
  match style with
  | .initial =>
    (appendText refusal [] (ascii "20 text/gemini\r\n")).map fun one => { context with one, two := [] }
  | .final => .ok context
  | style =>
    (appendTexts refusal context.one [prefixGemini release context style resource, text, crlf]).map
      fun one => { context with one }

/-- `processor_print_spartan` -/
def processorPrintSpartan (refusal : Refusal) (release : Bool) : PrintFunction :=
  fun context style resource text =>
  match style with
  | .initial => -- overload, different status code
    (appendText refusal [] (ascii "2 text/gemini\r\n")).map fun one => { context with one, two := [] }
  | .internalReference => -- overload, different protocol
    (appendTexts refusal context.one
      [ascii "=> " ++ spartanUrl release context.languages context.language resource ++ ascii " ", text,
        crlf]).map fun one => { context with one }
  | style => processorPrintGemini refusal release context style resource text

/-- `processor_print_guppy`; `insertMarkers` is what `guppy_insert_markers` makes of the text. -/
def processorPrintGuppy (refusal : Refusal) (release : Bool)
    (insertMarkers : List UInt8 → Except Error (List UInt8)) : PrintFunction :=
  fun context style resource text =>
  match style with
  | .initial => -- overload, no code
    (appendText refusal [] (ascii "text/gemini\r\n")).map fun one => { context with one, two := [] }
  | .final => -- overload, insert sequence numbers
    (insertMarkers context.one).map fun one => { context with one }
  | .internalReference => -- overload, different protocol
    (appendTexts refusal context.one
      [ascii "=> " ++ guppyUrl release context.languages context.language resource ++ ascii " ", text,
        crlf]).map fun one => { context with one }
  | style => processorPrintGemini refusal release context style resource text

/-! ## What is appended -/

/-- How the URL of an internal reference is made of the languages, the language and the resource. -/
abbrev UrlFunction := LinkLanguages → UInt8 → List UInt8 → List UInt8

/-- The lines of an entry. -/
def gemtextEntry (url : UrlFunction) (languages : LinkLanguages) (number : ℕ) (entry : Entry) :
    List (List UInt8) :=
  match entry.style with
  | .normal | .paragraph => [[], entry.text]
  | .itemize => [ascii "* " ++ entry.text]
  | .enumeration => [decimal number ++ ascii ". " ++ entry.text]
  | .quote => [ascii "> " ++ entry.text]
  | .large => [ascii "### " ++ entry.text]
  | .larger => [ascii "## " ++ entry.text]
  | .largest | .header => [ascii "# " ++ entry.text]
  | .internalReference =>
    [ascii "=> " ++ url languages entry.language entry.resource ++ ascii " " ++ entry.text]
  | _ => [ascii "=> " ++ entry.resource ++ ascii " " ++ entry.text]

/-- What is appended for an entry: its lines. -/
def gemtextAdded (url : UrlFunction) : Added :=
  fun languages _ number entry => (gemtextEntry url languages number entry).flatMap (· ++ crlf)

section

variable {release : Bool} {status : List UInt8} {finish : List UInt8 → Except Error (List UInt8)}

/-- Gemini appends the lines of entries. -/
theorem processorPrintGemini_printsBody (refusal : Refusal) :
    PrintsBody (processorPrintGemini refusal release) (ascii "20 text/gemini\r\n") .ok
      (gemtextAdded (geminiUrl release)) (Refused refusal) where
  initial context := (appendText_yields refusal [] _).map fun one hone => by rw [hone, List.nil_append]
  final context := ⟨rfl, rfl⟩
  entry context entry hlanguage := by
    obtain ⟨hinitial, hfinal⟩ := entry.content
    unfold gemtextAdded gemtextEntry
    rw [← hlanguage]
    generalize entry.style = style at hinitial hfinal ⊢
    cases style with
    | initial => exact absurd rfl hinitial
    | final => exact absurd rfl hfinal
    | _ =>
      refine (appendTexts_yields refusal context.one _).map fun one hone => ?_
      simp [hone, prefixGemini, List.append_assoc]

/-- A protocol that overloads the internal references of Gemini appends the lines with its own URLs. -/
theorem printsBody_of_inherits (refusal : Refusal) (release : Bool) {print : PrintFunction} {url : UrlFunction}
    {refused : Error → Prop} (hrefused : ∀ e, Refused refusal e → refused e)
    (hinitial : ∀ context, Yields (print context .initial [] [])
      (· = { context with one := status, two := [] }) refused)
    (hfinal : ∀ context, Yields (print context .final [] [])
      (fun printed => finish context.one = .ok printed.one ∧ printed.two = context.two) refused)
    (hreference : ∀ context resource text, print context .internalReference resource text
      = (appendTexts refusal context.one
        [ascii "=> " ++ url context.languages context.language resource ++ ascii " ", text, crlf]).map
          fun one => { context with one })
    (hinherit : ∀ context style resource text,
      style ≠ .initial ∧ style ≠ .final → style ≠ .internalReference →
      print context style resource text = processorPrintGemini refusal release context style resource text) :
    PrintsBody print status finish (gemtextAdded url) refused where
  initial := hinitial
  final := hfinal
  entry context entry hlanguage := by
    by_cases hstyle : entry.style = .internalReference
    · rw [hstyle, hreference]
      refine ((appendTexts_yields refusal context.one _).imp_fail hrefused).map fun one hone => ?_
      rw [hone, gemtextAdded, gemtextEntry, hstyle, hlanguage]
      simp [List.append_assoc]
    · -- no other entry has a URL of the protocol
      have hlines : gemtextEntry (geminiUrl release) context.languages context.listIndex entry
          = gemtextEntry url context.languages context.listIndex entry := by
        unfold gemtextEntry
        split <;> first | rfl | exact absurd ‹_› hstyle
      rw [hinherit _ _ _ _ entry.content hstyle, gemtextAdded, ← hlines]
      exact ((processorPrintGemini_printsBody refusal).entry context entry hlanguage).imp_fail hrefused

/-- Spartan appends the lines of entries. -/
theorem processorPrintSpartan_printsBody (refusal : Refusal) :
    PrintsBody (processorPrintSpartan refusal release) (ascii "2 text/gemini\r\n") .ok
      (gemtextAdded (spartanUrl release)) (Refused refusal) := by
  refine printsBody_of_inherits refusal release (fun _ he => he) ?_ (fun _ => ⟨rfl, rfl⟩) (fun _ _ _ => rfl) ?_
  · intro context
    exact (appendText_yields refusal [] _).map fun one hone => by rw [hone, List.nil_append]
  · rintro context style resource text ⟨hinitial, -⟩ hreference
    unfold processorPrintSpartan
    split
    · exact absurd rfl hinitial
    · exact absurd rfl hreference
    · rfl

/-- Guppy appends the lines of entries and makes a message of the page. -/
theorem processorPrintGuppy_printsBody (refusal : Refusal)
    (insertMarkers : List UInt8 → Except Error (List UInt8)) :
    PrintsBody (processorPrintGuppy refusal release insertMarkers) (ascii "text/gemini\r\n") insertMarkers
      (gemtextAdded (guppyUrl release))
      (fun e => Refused refusal e ∨ ∃ text, insertMarkers text = .error e) := by
  refine printsBody_of_inherits refusal release (fun _ => .inl) ?_ ?_ (fun _ _ _ => rfl) ?_
  · intro context
    refine ((appendText_yields refusal [] _).imp_fail fun _ => .inl).map fun one hone => ?_
    rw [hone, List.nil_append]
  · intro context
    have hmarkers : Yields (insertMarkers context.one) (insertMarkers context.one = .ok ·)
        fun e => ∃ text, insertMarkers text = .error e := by
      cases h : insertMarkers context.one with
      | ok one => exact rfl
      | error e => exact ⟨_, h⟩
    exact (hmarkers.imp_fail fun _ => .inr).map fun one hone => ⟨hone, rfl⟩
  · rintro context style resource text ⟨hinitial, hfinal⟩ hreference
    unfold processorPrintGuppy
    split
    · exact absurd rfl hinitial
    · exact absurd rfl hfinal
    · exact absurd rfl hreference
    · rfl

end

/-! ## What is read -/

/-- An entry gemtext has a line for: nothing in it ends the line or the URL of it, and its text does not
look like another line. -/
structure Entry.InGemtext (entry : Entry) : Prop where
  line : IsLine entry.text
  resource : entry.resource.all isUrlByte = true
  external : entry.style = .externalReference → entry.resource ≠ []
  plain : entry.style = .normal ∨ entry.style = .paragraph → readGemtextLine entry.text = .text entry.text
  unspaced : processorGenericParagraph entry.style = true ∨ entry.style = .internalReference ∨
    entry.style = .externalReference → entry.style ≠ .paragraph → Unspaced entry.text

/-- What an entry is read as. -/
def gemtextLines (url : UrlFunction) (languages : LinkLanguages) (number : ℕ) (entry : Entry) :
    List GemtextLine :=
  match entry.style with
  | .normal | .paragraph => [.text [], .text entry.text]
  | .itemize => [.item entry.text]
  | .enumeration => [.text (decimal number ++ ascii ". " ++ entry.text)]
  | .quote => [.quote entry.text]
  | .large => [.heading 3 entry.text]
  | .larger => [.heading 2 entry.text]
  | .largest | .header => [.heading 1 entry.text]
  | .internalReference => [.link (url languages entry.language entry.resource) entry.text]
  | _ => [.link entry.resource entry.text]

/-- What a page is read as, from a number on. -/
def gemtextPage (url : UrlFunction) (languages : LinkLanguages) : ℕ → List Entry → List GemtextLine
  | _, [] => []
  | number, entry :: rest => gemtextLines url languages (entryNumber number entry) entry
      ++ gemtextPage url languages (entryNumber number entry) rest

/-- Resources become URLs. -/
def MakesUrls (url : UrlFunction) : Prop :=
  ∀ (languages : LinkLanguages) (language : UInt8) (resource : List UInt8),
    resource.all isUrlByte = true → IsUrl (url languages language resource)

section

variable {url : UrlFunction} {languages : LinkLanguages}

/-- A number begins with a digit. -/
theorem decimal_cons (n : ℕ) : ∃ c rest, decimal n = c :: rest ∧ 48 ≤ c ∧ c ≤ 57 := by
  obtain ⟨hne, hall, -⟩ := decimal_spec n
  obtain ⟨c, rest, hdecimal⟩ := List.exists_cons_of_ne_nil hne
  have hc := List.all_eq_true.mp hall c (hdecimal ▸ List.mem_cons_self)
  rw [isDecimal, Bool.and_eq_true, decide_eq_true_iff, decide_eq_true_iff] at hc
  exact ⟨c, rest, hdecimal, hc⟩

/-- A number is on one line. -/
theorem isLine_decimal (n : ℕ) : IsLine (decimal n) := by
  intro c hc
  have hdigit := List.all_eq_true.mp (decimal_spec n).2.1 c hc
  constructor <;>
  · rintro rfl
    exact absurd hdigit (by decide)

/-- The lines of an entry are read as the entry. -/
theorem map_readGemtextLine_gemtextEntry (hurl : MakesUrls url) {entry : Entry} (h : entry.InGemtext)
    (number : ℕ) : (gemtextEntry url languages number entry).map readGemtextLine
      = gemtextLines url languages number entry := by
  obtain ⟨hinitial, hfinal⟩ := entry.content
  have hplain := h.plain
  have hunspaced := h.unspaced
  have hexternal := h.external
  unfold gemtextEntry gemtextLines
  generalize entry.style = style at hinitial hfinal hplain hunspaced hexternal ⊢
  cases style with
  | initial => exact absurd rfl hinitial
  | final => exact absurd rfl hfinal
  | normal => exact congrArg ([GemtextLine.text [], ·]) (hplain (.inl rfl))
  | paragraph => exact congrArg ([GemtextLine.text [], ·]) (hplain (.inr rfl))
  | itemize => rfl
  | enumeration =>
    obtain ⟨c, rest, hdecimal, hc⟩ := decimal_cons number
    simp only [hdecimal, List.cons_append]
    exact congrArg ([·]) (readGemtextLine_digit hc _)
  | quote => exact congrArg ([·]) (readGemtextLine_quote (hunspaced (.inl rfl) (by decide)))
  | large => exact congrArg ([·]) (readGemtextLine_heading3 (hunspaced (.inl rfl) (by decide)))
  | larger => exact congrArg ([·]) (readGemtextLine_heading2 (hunspaced (.inl rfl) (by decide)))
  | largest | header => exact congrArg ([·]) (readGemtextLine_heading1 (hunspaced (.inl rfl) (by decide)))
  | internalReference =>
    exact congrArg ([·]) (readGemtextLine_link (hunspaced (.inr (.inl rfl)) (by decide))
      (hurl languages entry.language entry.resource h.resource))
  | externalReference =>
    exact congrArg ([·]) (readGemtextLine_link (hunspaced (.inr (.inr rfl)) (by decide))
      ⟨hexternal rfl, h.resource⟩)

theorem isLine_gemtextEntry (hurl : MakesUrls url) {entry : Entry} (h : entry.InGemtext) (number : ℕ) :
    ∀ line ∈ gemtextEntry url languages number entry, IsLine line := by
  have htext := h.line
  have hreference := (hurl languages entry.language entry.resource h.resource).isLine
  have hresource : IsLine entry.resource := by
    by_cases hnil : entry.resource = []
    · rw [hnil]
      exact isLine_of_all rfl
    · exact IsUrl.isLine ⟨hnil, h.resource⟩
  have hspace : IsLine (ascii " ") := isLine_of_all rfl
  have harrow : IsLine (ascii "=> ") := isLine_of_all rfl
  intro line hline
  unfold gemtextEntry at hline
  split at hline
  case h_1 | h_2 =>
    rcases List.mem_pair.mp hline with rfl | rfl
    · exact isLine_of_all rfl
    · exact htext
  all_goals rw [List.mem_singleton.mp hline]
  case h_4 => exact ((isLine_decimal number).append (isLine_of_all rfl)).append htext
  case h_10 => exact ((harrow.append hreference).append hspace).append htext
  case h_11 => exact ((harrow.append hresource).append hspace).append htext
  all_goals exact IsLine.append (isLine_of_all rfl) htext

theorem toggle_notMem_gemtextLines (number : ℕ) (entry : Entry) :
    .toggle ∉ gemtextLines url languages number entry := by
  unfold gemtextLines
  split <;> simp

/-- The lines of a page. -/
def gemtextBody (url : UrlFunction) (languages : LinkLanguages) : ℕ → List Entry → List (List UInt8)
  | _, [] => []
  | number, entry :: rest => gemtextEntry url languages (entryNumber number entry) entry
      ++ gemtextBody url languages (entryNumber number entry) rest

theorem printedBody_gemtext (entries : List Entry) (previous : EntryStyle) (number : ℕ) :
    printedBody (gemtextAdded url) languages previous number entries
      = (gemtextBody url languages number entries).flatMap (· ++ crlf) := by
  induction entries generalizing previous number with
  | nil => rfl
  | cons entry entries ih =>
    rw [printedBody, gemtextBody, List.flatMap_append, ih]
    rfl

/-- The body of a page is read as the page. -/
theorem readGemtext_printedBody (hurl : MakesUrls url) {entries : List Entry}
    (hentries : ∀ entry ∈ entries, entry.InGemtext) (previous : EntryStyle) (number : ℕ) :
    readGemtext (printedBody (gemtextAdded url) languages previous number entries)
      = gemtextPage url languages number entries := by
  have hread : (gemtextBody url languages number entries).map readGemtextLine
        = gemtextPage url languages number entries ∧
      (∀ line ∈ gemtextBody url languages number entries, IsLine line) ∧
      .toggle ∉ gemtextPage url languages number entries := by
    induction entries generalizing number with
    | nil => exact ⟨rfl, fun line hline => absurd hline List.not_mem_nil, List.not_mem_nil⟩
    | cons entry entries ih =>
      have hentry := hentries entry List.mem_cons_self
      obtain ⟨hmap, hlines, htoggle⟩ := ih (fun e he => hentries e (List.mem_cons_of_mem entry he))
        (entryNumber number entry)
      refine ⟨?_, fun line hline => ?_, fun hmem => ?_⟩
      · rw [gemtextBody, List.map_append, map_readGemtextLine_gemtextEntry hurl hentry, hmap, gemtextPage]
      · rcases List.mem_append.mp hline with hline | hline
        · exact isLine_gemtextEntry hurl hentry _ line hline
        · exact hlines line hline
      · rcases List.mem_append.mp hmem with hmem | hmem
        · exact toggle_notMem_gemtextLines _ entry hmem
        · exact htoggle hmem
  obtain ⟨hmap, hlines, htoggle⟩ := hread
  rw [printedBody_gemtext, show crlf = [13, 10] from rfl, readGemtext_lines hlines, hmap]
  intro line hline heq
  exact htoggle (hmap ▸ heq ▸ List.mem_map_of_mem hline)

end

/-! ## URLs that are printed -/

theorem all_domainName (release : Bool) : (domainName release).all isUrlByte = true := by
  cases release <;> decide

theorem all_languageQuestion (language explicitRequest implicitRequest : UInt8) :
    (languageQuestion language explicitRequest implicitRequest).all isUrlByte = true := by
  rw [languageQuestion]
  generalize languageExplicit language explicitRequest implicitRequest = explicit
  cases explicit <;> split_ifs <;> decide

theorem all_languageSlash (language explicitRequest implicitRequest : UInt8) :
    (languageSlash language explicitRequest implicitRequest).all isUrlByte = true := by
  rw [languageSlash]
  generalize languageExplicit language explicitRequest implicitRequest = explicit
  cases explicit <;> split_ifs <;> decide

section

variable (release : Bool)

theorem geminiUrl_makesUrls : MakesUrls (geminiUrl release) := by
  intro languages language resource hresource
  have hport : (geminiPortString release).all isUrlByte = true := by cases release <;> decide
  refine ⟨by simp [geminiUrl, ascii], ?_⟩
  simp only [geminiUrl, LinkLanguages.question, List.all_append, all_domainName, all_languageQuestion, hport,
    hresource]
  decide

theorem spartanUrl_makesUrls : MakesUrls (spartanUrl release) := by
  intro languages language resource hresource
  have hport : (spartanPortString release).all isUrlByte = true := by cases release <;> decide
  have hslash : (if resource = [] then [] else ascii "/").all isUrlByte = true := by split_ifs <;> decide
  refine ⟨by simp [spartanUrl, ascii], ?_⟩
  simp only [spartanUrl, slashPath, LinkLanguages.slash, List.all_append, all_domainName, all_languageSlash,
    hport, hslash, hresource]
  decide

theorem guppyUrl_makesUrls : MakesUrls (guppyUrl release) := by
  intro languages language resource hresource
  have hport : (guppyPortString release).all isUrlByte = true := by cases release <;> decide
  refine ⟨by simp [guppyUrl, ascii], ?_⟩
  simp only [guppyUrl, LinkLanguages.question, List.all_append, all_domainName, all_languageQuestion, hport,
    hresource]
  decide

end

/-- A page of a printer is its status and a text that is read as the entries of the page. -/
theorem PrintsBody.gemtext {print : PrintFunction} {status : List UInt8}
    {finish : List UInt8 → Except Error (List UInt8)} {url : UrlFunction} {refused : Error → Prop}
    (h : PrintsBody print status finish (gemtextAdded url) refused) (hurl : MakesUrls url)
    {entries : List Entry} (hentries : ∀ entry ∈ entries, entry.InGemtext) (context : PrintContext) :
    Yields (Twinkleshine.printPage print context entries)
      (fun page => page.two = [] ∧ ∃ body, finish (status ++ body) = .ok page.one ∧
        readGemtext body = gemtextPage url context.languages 0 entries) refused :=
  (h.printPage entries context).mono fun _ ⟨hfinish, htwo⟩ =>
    ⟨htwo, _, hfinish, readGemtext_printedBody hurl hentries .initial 0⟩

/-- In all three protocols a page is read as its entries: no entry is lost, split or taken for something
else, if its texts may stand in gemtext. Nothing but the allocator keeps a page from being printed. -/
theorem printPage_gemtext (refusal : Refusal) (release : Bool)
    (insertMarkers : List UInt8 → Except Error (List UInt8)) {entries : List Entry}
    (hentries : ∀ entry ∈ entries, entry.InGemtext) (context : PrintContext) :
    Yields (printPage (processorPrintGemini refusal release) context entries)
        (fun page => page.two = [] ∧ ∃ body, page.one = ascii "20 text/gemini\r\n" ++ body ∧
          readGemtext body = gemtextPage (geminiUrl release) context.languages 0 entries)
        (Refused refusal) ∧
      Yields (printPage (processorPrintSpartan refusal release) context entries)
        (fun page => page.two = [] ∧ ∃ body, page.one = ascii "2 text/gemini\r\n" ++ body ∧
          readGemtext body = gemtextPage (spartanUrl release) context.languages 0 entries)
        (Refused refusal) ∧
      Yields (printPage (processorPrintGuppy refusal release insertMarkers) context entries)
        (fun page => page.two = [] ∧ ∃ body,
          insertMarkers (ascii "text/gemini\r\n" ++ body) = .ok page.one ∧
          readGemtext body = gemtextPage (guppyUrl release) context.languages 0 entries)
        (fun e => Refused refusal e ∨ ∃ text, insertMarkers text = .error e) := by
  have hone : ∀ {whole one : List UInt8}, Except.ok whole = (.ok one : Except Error (List UInt8)) →
      one = whole := fun h => (Except.ok.inj h).symm
  refine ⟨?_, ?_, ?_⟩
  · exact ((processorPrintGemini_printsBody refusal).gemtext (geminiUrl_makesUrls release) hentries
      context).mono fun _ ⟨htwo, body, hfinish, hread⟩ => ⟨htwo, body, hone hfinish, hread⟩
  · exact ((processorPrintSpartan_printsBody refusal).gemtext (spartanUrl_makesUrls release) hentries
      context).mono fun _ ⟨htwo, body, hfinish, hread⟩ => ⟨htwo, body, hone hfinish, hread⟩
  · exact (processorPrintGuppy_printsBody refusal insertMarkers).gemtext (guppyUrl_makesUrls release) hentries
      context

/-- A title, a list of two and a link, in a release. -/
theorem printPage_gemtext_four :
    Yields (printPage (processorPrintGemini (fun _ => none) true) ⟨[], [], 0, false, .initial, 0, 101, 0⟩
        [⟨.header, 101, [], ascii "SmolNet", by decide⟩, ⟨.enumeration, 101, [], ascii "one", by decide⟩,
          ⟨.enumeration, 101, [], ascii "two", by decide⟩,
          ⟨.internalReference, 100, ascii "about", ascii "About me", by decide⟩])
      (fun page => page.two = [] ∧ ∃ body, page.one = ascii "20 text/gemini\r\n" ++ body ∧
        readGemtext body = [.heading 1 (ascii "SmolNet"), .text (ascii "1. one"), .text (ascii "2. two"),
          .link (ascii "gemini://my8bitsoul.eu/about?lang=de") (ascii "About me")])
      (Refused fun _ => none) := by
  have hline : ∀ text ∈ [ascii "SmolNet", ascii "one", ascii "two", ascii "About me"], IsLine text ∧
      Unspaced text := by
    intro text htext
    simp only [List.mem_cons, List.not_mem_nil, or_false] at htext
    rcases htext with rfl | rfl | rfl | rfl <;>
      exact ⟨isLine_of_all (by decide), by rintro c ⟨⟩; decide⟩
  refine (printPage_gemtext (fun _ => none) true .ok ?_ _).1.mono fun page ⟨htwo, body, hone, hread⟩ =>
    ⟨htwo, body, hone, hread.trans (by decide)⟩
  intro entry hentry
  simp only [List.mem_cons, List.not_mem_nil, or_false] at hentry
  rcases hentry with rfl | rfl | rfl | rfl <;>
    exact ⟨(hline _ (by decide)).1, by decide, by decide, by decide, fun _ _ => (hline _ (by decide)).2⟩

end Twinkleshine
