import Mathlib.Data.List.SplitBy
import Twinkleshine.Library.Markup
import Twinkleshine.Processor.Print
import Twinkleshine.Processor.Process
import Twinkleshine.Strtol

/-!
# Printing HTML

Reference: `processor_print_http` in `source/processor/http_processor.c`.

Entries become elements. The lists around items are opened and closed by comparing a style with that of
the previous entry, also when the page ends. The header is printed last, with the size of the body as an
`unsigned int`.

`htmlPage` is the page as it should be: the entries are grouped into runs of one style, and a run of items
stands in one list.
-/

namespace Twinkleshine

open Library

/-! ## Printing -/

/-- Pre-prefix -/
def prePrefixHttp (previousStyle style : EntryStyle) : List (List UInt8) :=
  (if previousStyle = .itemize ∧ style ≠ .itemize then [ascii "</ul>\n"] else []) ++
  (if previousStyle = .enumeration ∧ style ≠ .enumeration then [ascii "</ol>\n"] else [])

/-- Prefix -/
def prefixHttp (context : PrintContext) (style : EntryStyle) (resource : List UInt8) :
    List (List UInt8) :=
  match style with
  | .initial | .final | .normal => []
  | .paragraph => [ascii "<p>"]
  | .itemize =>
    (if context.previousStyle ≠ .itemize then [ascii "<ul>\n"] else []) ++ [ascii "<li>"]
  | .enumeration =>
    (if context.previousStyle ≠ .enumeration then [ascii "<ol>\n"] else []) ++ [ascii "<li>"]
  | .quote => [ascii "<blockquote>\n<p>"]
  | .large => [ascii "<h3>\n<p>"]
  | .larger => [ascii "<h2>\n<p>"]
  | .largest => [ascii "<h1>\n<p>"]
  | .header => [ascii "<header>\n<h1>"]
  | .internalReference =>
    [ascii "<a href=\"/" ++ resource ++ languageQuestion context.language context.requestedLanguage
      context.requestLanguage ++ ascii "\">"]
  | .externalReference => [ascii "<a href=\"" ++ resource ++ ascii "\">"]

/-- Suffix -/
def suffixHttp : EntryStyle → List UInt8
  | .initial | .final => []
  | .normal => ascii "<br>\n"
  | .paragraph => ascii "</p>\n"
  | .itemize | .enumeration => ascii "</li>\n"
  | .quote => ascii "</p>\n</blockquote>\n"
  | .large => ascii "</p>\n</h3>\n"
  | .larger => ascii "</p>\n</h2>\n"
  | .largest => ascii "</p>\n</h1>\n"
  | .header => ascii "</h1>\n</header>\n"
  | .internalReference | .externalReference => ascii "</a><br>\n"

/-- `processor_print_http`; `date` is the time of the moment. -/
def processorPrintHttp (refusal : Refusal) (date : List UInt8) : PrintFunction :=
  fun context style resource text =>
  (appendTexts refusal context.two (prePrefixHttp context.previousStyle style)).bind fun two =>
  match style with
  | .initial => (appendText refusal [] htmlOpen).map fun two => { context with two }
  | .final =>
    (appendText refusal two htmlClose).bind fun two =>
    (appendText refusal [] (httpTemplateSuccess two.length (connectionText context.requestKeepAlive)
      date)).map fun one => { context with one, two }
  | style =>
    (appendTexts refusal two (prefixHttp context style resource ++ [text, suffixHttp style])).map
      fun two => { context with two }

/-! ## The page as it should be -/

/-- The begin of a list. -/
def listOpen : EntryStyle → List UInt8
  | .itemize => ascii "<ul>\n"
  | .enumeration => ascii "<ol>\n"
  | _ => []

/-- The end of a list. -/
def listClose : EntryStyle → List UInt8
  | .itemize => ascii "</ul>\n"
  | .enumeration => ascii "</ol>\n"
  | _ => []

/-- What stands in front of the text of an entry. -/
def entryOpen (languages : LinkLanguages) (entry : Entry) : List UInt8 :=
  match entry.style with
  | .initial | .final | .normal => []
  | .paragraph => ascii "<p>"
  | .itemize | .enumeration => ascii "<li>"
  | .quote => ascii "<blockquote>\n<p>"
  | .large => ascii "<h3>\n<p>"
  | .larger => ascii "<h2>\n<p>"
  | .largest => ascii "<h1>\n<p>"
  | .header => ascii "<header>\n<h1>"
  | .internalReference =>
    ascii "<a href=\"/" ++ entry.resource ++ languageQuestion entry.language languages.requestedLanguage
      languages.requestLanguage ++ ascii "\">"
  | .externalReference => ascii "<a href=\"" ++ entry.resource ++ ascii "\">"

/-- An entry without the list around it. -/
def entryHtml (languages : LinkLanguages) (entry : Entry) : List UInt8 :=
  entryOpen languages entry ++ entry.text ++ suffixHttp entry.style

/-- A run of entries of one style, in a list if they are items. -/
def runHtml (languages : LinkLanguages) (run : List Entry) : List UInt8 :=
  match run with
  | [] => []
  | entry :: _ => listOpen entry.style ++ run.flatMap (entryHtml languages) ++ listClose entry.style

/-- The maximal runs of entries of one style. -/
def styleRuns (entries : List Entry) : List (List Entry) :=
  entries.splitBy fun entry next => entry.style = next.style

def htmlPage (languages : LinkLanguages) (entries : List Entry) : List UInt8 :=
  htmlOpen ++ (styleRuns entries).flatMap (runHtml languages) ++ htmlClose

/-- The value of `Content-Length` in a header. -/
def contentLength : List UInt8 → Option ℕ
  | [] => none
  | c :: header =>
    if (ascii "Content-Length: ").isPrefixOf (c :: header) then
      some (digitsNumber (((c :: header).drop 16).takeWhile isDecimal))
    else contentLength header

/-- Elements that are not closed. -/
def isVoid (name : List UInt8) : Bool := name == ascii "meta" || name == ascii "br"

/-! ## What is printed -/

section

variable {refusal : Refusal} {date : List UInt8} {context printed : PrintContext}
  {languages : LinkLanguages}

/-- Lists that another style ends are closed. -/
theorem prePrefixHttp_flatten (previousStyle style : EntryStyle) :
    (prePrefixHttp previousStyle style).flatten
      = if previousStyle = style then [] else listClose previousStyle := by
  unfold prePrefixHttp
  by_cases hsame : previousStyle = style
  · rw [if_pos hsame, if_neg (fun h => h.2 (hsame ▸ h.1)), if_neg (fun h => h.2 (hsame ▸ h.1))]
    rfl
  · rw [if_neg hsame]
    cases previousStyle with
    | itemize => rw [if_pos ⟨rfl, Ne.symm hsame⟩]; rfl
    | enumeration => rw [if_neg (by simp), if_pos ⟨rfl, Ne.symm hsame⟩]; rfl
    | _ => rfl

/-- Lists that a style begins are opened. -/
theorem prefixHttp_flatten (entry : Entry) (hlanguage : context.language = entry.language) :
    (prefixHttp context entry.style entry.resource).flatten
      = (if context.previousStyle = entry.style then [] else listOpen entry.style)
        ++ entryOpen context.languages entry := by
  unfold prefixHttp entryOpen
  rw [hlanguage]
  cases entry.style with
  | itemize => by_cases h : context.previousStyle = .itemize <;> simp [h, listOpen]
  | enumeration => by_cases h : context.previousStyle = .enumeration <;> simp [h, listOpen]
  | _ => simp [listOpen, PrintContext.languages]

/-- What an entry adds behind an entry of a style. -/
def entryAdded (languages : LinkLanguages) (previousStyle : EntryStyle) (entry : Entry) :
    List UInt8 :=
  (if previousStyle = entry.style then [] else listClose previousStyle ++ listOpen entry.style)
    ++ entryHtml languages entry

theorem processorPrintHttp_entry (entry : Entry) (hlanguage : context.language = entry.language)
    (h : processorPrintHttp refusal date context entry.style entry.resource entry.text = .ok printed) :
    printed = { context with
      two := context.two ++ entryAdded context.languages context.previousStyle entry } := by
  obtain ⟨two, htwo, h⟩ := bind_eq_ok.mp h
  have h : (appendTexts refusal two (prefixHttp context entry.style entry.resource ++
      [entry.text, suffixHttp entry.style])).map (fun two => { context with two }) = .ok printed := by
    obtain ⟨hinitial, hfinal⟩ := entry.content
    split at h
    · exact absurd ‹_› hinitial
    · exact absurd ‹_› hfinal
    · exact h
  obtain ⟨all, hall, rfl⟩ := map_eq_ok.mp h
  rw [appendTexts_eq hall, appendTexts_eq htwo, List.flatten_append, prefixHttp_flatten entry hlanguage,
    prePrefixHttp_flatten, entryAdded, entryHtml]
  split_ifs <;> simp [List.append_assoc]

/-- What the entries add behind an entry of a style, with the end of the last list. -/
def entriesAdded (languages : LinkLanguages) : EntryStyle → List Entry → List UInt8
  | previousStyle, [] => listClose previousStyle
  | previousStyle, entry :: entries =>
    entryAdded languages previousStyle entry ++ entriesAdded languages entry.style entries

/-- What printing entries keeps of a context. -/
structure PrintContext.Keeps (context printed : PrintContext) : Prop where
  one : printed.one = context.one
  requestLanguage : printed.requestLanguage = context.requestLanguage
  requestedLanguage : printed.requestedLanguage = context.requestedLanguage
  requestKeepAlive : printed.requestKeepAlive = context.requestKeepAlive

theorem printEntries_http {entries : List Entry}
    (h : printEntries (processorPrintHttp refusal date) context entries = .ok printed) :
    printed.two ++ listClose printed.previousStyle
        = context.two ++ entriesAdded context.languages context.previousStyle entries ∧
      context.Keeps printed := by
  induction entries generalizing context with
  | nil =>
    cases h
    exact ⟨rfl, rfl, rfl, rfl, rfl⟩
  | cons entry entries ih =>
    obtain ⟨next, hnext, hrest⟩ := foldlM_cons_eq_ok.mp h
    obtain ⟨listIndex, middle, hmiddle, rfl⟩ := processorPrint_ok hnext
    have hentry := processorPrintHttp_entry entry rfl hmiddle
    obtain ⟨htwo, hkeeps⟩ := ih hrest
    subst hentry
    refine ⟨htwo.trans ?_, hkeeps.one, hkeeps.requestLanguage, hkeeps.requestedLanguage,
      hkeeps.requestKeepAlive⟩
    rw [entriesAdded, ← List.append_assoc]
    rfl

/-- A printed page, and its header. -/
theorem printPage_http {entries : List Entry}
    (h : printPage (processorPrintHttp refusal date) context entries = .ok printed) :
    printed.two = htmlOpen ++ entriesAdded context.languages .initial entries ++ htmlClose ∧
      printed.one = httpTemplateSuccess printed.two.length (connectionText context.requestKeepAlive)
        date := by
  obtain ⟨first, last, hfirst, hlast, hprinted⟩ := printPage_ok h
  obtain ⟨listIndex, begun, hbegun, rfl⟩ := processorPrint_ok hfirst
  obtain ⟨two, -, hbegun⟩ := bind_eq_ok.mp hbegun
  obtain ⟨opened, hopened, rfl⟩ := map_eq_ok.mp hbegun
  obtain rfl : opened = htmlOpen := by rw [appendText_eq hopened, List.nil_append]
  obtain ⟨htwo, hkeeps⟩ := printEntries_http hlast
  obtain ⟨listIndex', ended, hended, rfl⟩ := processorPrint_ok hprinted
  obtain ⟨closed, hclosed, hended⟩ := bind_eq_ok.mp hended
  obtain ⟨body, hbody, hended⟩ := bind_eq_ok.mp hended
  obtain ⟨header, hheader, rfl⟩ := map_eq_ok.mp hended
  have hclosed : closed = last.two ++ listClose last.previousStyle := by
    rw [appendTexts_eq hclosed, prePrefixHttp_flatten]
    split_ifs with hfinal
    · rw [show last.previousStyle = .final from hfinal]
      rfl
    · rfl
  have hbody : body = htmlOpen ++ entriesAdded context.languages .initial entries ++ htmlClose := by
    rw [appendText_eq hbody, hclosed, htwo]
    rfl
  refine ⟨hbody, ?_⟩
  show header = _
  rw [appendText_eq hheader, List.nil_append, ← hkeeps.requestKeepAlive]

end

/-! ## Runs of entries -/

section

variable {languages : LinkLanguages}

/-- Entries of the style of the entry before them follow it. -/
theorem entriesAdded_same (languages : LinkLanguages) {style : EntryStyle} {run : List Entry}
    (h : ∀ entry ∈ run, entry.style = style) (rest : List Entry) :
    entriesAdded languages style (run ++ rest)
      = run.flatMap (entryHtml languages) ++ entriesAdded languages style rest := by
  induction run with
  | nil => rfl
  | cons entry run ih =>
    have hstyle := h entry List.mem_cons_self
    rw [List.cons_append, entriesAdded, hstyle, ih fun e he => h e (List.mem_cons_of_mem _ he),
      entryAdded, if_pos hstyle.symm, List.nil_append, List.flatMap_cons, List.append_assoc]

/-- In a run all styles are that of its first entry. -/
theorem style_eq_of_isChain {entry : Entry} {run : List Entry}
    (h : (entry :: run).IsChain fun a b => decide (a.style = b.style) = true) :
    ∀ e ∈ entry :: run, e.style = entry.style := by
  induction run generalizing entry with
  | nil =>
    intro e he
    rw [List.mem_singleton.mp he]
  | cons next run ih =>
    obtain ⟨hstyle, hrun⟩ := List.isChain_cons_cons.mp h
    intro e he
    rcases List.mem_cons.mp he with rfl | he
    · rfl
    · exact (ih hrun e he).trans (of_decide_eq_true hstyle).symm

/-- Runs that are maximal are printed one after the other, each in its list. -/
theorem entriesAdded_runs (languages : LinkLanguages) {runs : List (List Entry)} (hne : [] ∉ runs)
    (hsame : ∀ run ∈ runs, run.IsChain fun a b => decide (a.style = b.style) = true)
    (hapart : runs.IsChain fun a b =>
      ∃ ha hb, decide ((a.getLast ha).style = (b.head hb).style) = false)
    (style : EntryStyle) (hstyle : ∀ entry ∈ runs.flatten.head?, style ≠ entry.style) :
    entriesAdded languages style runs.flatten
      = listClose style ++ runs.flatMap (runHtml languages) := by
  induction runs generalizing style with
  | nil => exact (List.append_nil _).symm
  | cons run runs ih =>
    have hnil : run ≠ [] := fun h => hne (h ▸ List.mem_cons_self)
    have hrest : [] ∉ runs := fun h => hne (List.mem_cons_of_mem _ h)
    obtain ⟨entry, run, rfl⟩ := List.exists_cons_of_ne_nil hnil
    have hstyles := style_eq_of_isChain (hsame _ List.mem_cons_self)
    have hnext : ∀ next ∈ runs.flatten.head?, entry.style ≠ next.style := by
      cases runs with
      | nil => exact fun next hnext => absurd hnext (by simp)
      | cons following runs =>
        obtain ⟨hlast, hfirst, hdiffer⟩ := (List.isChain_cons_cons.mp hapart).1
        intro next hnext
        obtain ⟨first, following, rfl⟩ := List.exists_cons_of_ne_nil hfirst
        cases hnext
        rw [← hstyles _ (List.getLast_mem hlast)]
        exact of_decide_eq_false hdiffer
    have hadded := entriesAdded_same languages
      (fun e he => hstyles e (List.mem_cons_of_mem _ he)) runs.flatten
    rw [List.flatten_cons, List.cons_append, entriesAdded, hadded,
      ih hrest (fun r hr => hsame r (List.mem_cons_of_mem _ hr)) hapart.tail entry.style hnext,
      entryAdded, if_neg (hstyle entry rfl), List.flatMap_cons, runHtml, List.flatMap_cons]
    simp only [List.append_assoc]

/-- The entries of a page are printed as the runs of it. -/
theorem entriesAdded_eq (entries : List Entry) :
    entriesAdded languages .initial entries = (styleRuns entries).flatMap (runHtml languages) := by
  have hruns := entriesAdded_runs languages
    (List.nil_notMem_splitBy (fun entry next : Entry => entry.style = next.style) entries)
    (fun _ => List.isChain_of_mem_splitBy)
    (List.isChain_getLast_head_splitBy (fun entry next : Entry => entry.style = next.style) entries)
    .initial fun entry _ => entry.content.1.symm
  rwa [List.flatten_splitBy] at hruns

end

/-! ## Tags -/

/-- The tags in front of the text of an entry, and those behind it. -/
def entryTags : EntryStyle → List Tag × List Tag
  | .initial | .final => ([], [])
  | .normal => ([], [.opening (ascii "br")])
  | .paragraph => ([.opening (ascii "p")], [.closing (ascii "p")])
  | .itemize | .enumeration => ([.opening (ascii "li")], [.closing (ascii "li")])
  | .quote =>
    ([.opening (ascii "blockquote"), .opening (ascii "p")],
      [.closing (ascii "p"), .closing (ascii "blockquote")])
  | .large =>
    ([.opening (ascii "h3"), .opening (ascii "p")], [.closing (ascii "p"), .closing (ascii "h3")])
  | .larger =>
    ([.opening (ascii "h2"), .opening (ascii "p")], [.closing (ascii "p"), .closing (ascii "h2")])
  | .largest =>
    ([.opening (ascii "h1"), .opening (ascii "p")], [.closing (ascii "p"), .closing (ascii "h1")])
  | .header =>
    ([.opening (ascii "header"), .opening (ascii "h1")],
      [.closing (ascii "h1"), .closing (ascii "header")])
  | .internalReference | .externalReference =>
    ([.opening (ascii "a")], [.closing (ascii "a"), .opening (ascii "br")])

/-- The tags around a list. -/
def listTags : EntryStyle → List Tag × List Tag
  | .itemize => ([.opening (ascii "ul")], [.closing (ascii "ul")])
  | .enumeration => ([.opening (ascii "ol")], [.closing (ascii "ol")])
  | _ => ([], [])

def runTags : List Entry → List Tag
  | [] => []
  | entry :: run =>
    (listTags entry.style).1
      ++ (entry :: run).flatMap (fun e => (entryTags e.style).1 ++ (entryTags e.style).2)
      ++ (listTags entry.style).2

/-- Nothing of the reference and the text of an entry is taken for a tag. -/
def Entry.FreeOfMarkup (entry : Entry) : Prop :=
  ∀ c ∈ entry.resource ++ entry.text, isAngle c = false

section

variable {languages : LinkLanguages} {entry : Entry}

theorem languageQuestion_plain (language explicitRequest implicitRequest : UInt8) :
    ∀ c ∈ languageQuestion language explicitRequest implicitRequest, isAngle c = false := by
  unfold languageQuestion
  generalize languageExplicit language explicitRequest implicitRequest = explicit
  dsimp only
  split_ifs <;> exact forall_mem_of_all rfl

/-- A link is one tag. -/
theorem tags_link (content : List UInt8) (h : ∀ c ∈ content, isAngle c = false) :
    tags (ascii "<a href=\"" ++ content ++ ascii "\">") = some [.opening (ascii "a")] := by
  have hbegin : ∀ c ∈ ascii "a href=\"", isAngle c = false := forall_mem_of_all rfl
  have hend : ∀ c ∈ ascii "\"", isAngle c = false := forall_mem_of_all rfl
  have hplain : ∀ c ∈ ascii "a href=\"" ++ content ++ ascii "\"", isAngle c = false := by
    intro c hc
    rw [List.mem_append, List.mem_append] at hc
    exact hc.elim (fun hc => hc.elim (hbegin c) (h c)) (hend c)
  have htag := tags_of_tag hplain
  have hshape : ascii "<a href=\"" ++ content ++ ascii "\">"
      = 60 :: ((ascii "a href=\"" ++ content ++ ascii "\"") ++ [62]) := by
    rw [show ascii "\">" = ascii "\"" ++ [62] from rfl, ← List.append_assoc]
    rfl
  rw [hshape, htag]
  rfl

theorem tags_entryOpen (languages : LinkLanguages) (h : ∀ c ∈ entry.resource, isAngle c = false) :
    tags (entryOpen languages entry) = some (entryTags entry.style).1 := by
  unfold entryOpen
  cases entry.style with
  | internalReference =>
    have hlink := tags_link (47 :: (entry.resource ++ languageQuestion entry.language
      languages.requestedLanguage languages.requestLanguage)) (by
        intro c hc
        rcases List.mem_cons.mp hc with rfl | hc
        · rfl
        rcases List.mem_append.mp hc with hc | hc
        · exact h c hc
        · exact languageQuestion_plain _ _ _ c hc)
    rw [show ascii "<a href=\"/" = ascii "<a href=\"" ++ [47] from rfl]
    show tags _ = some [.opening (ascii "a")]
    simpa only [List.append_assoc, List.cons_append, List.nil_append] using hlink
  | externalReference => exact tags_link _ h
  | _ => rfl

theorem tags_suffixHttp (style : EntryStyle) : tags (suffixHttp style) = some (entryTags style).2 := by
  cases style <;> decide

theorem tags_entryHtml (h : entry.FreeOfMarkup) :
    tags (entryHtml languages entry)
      = some ((entryTags entry.style).1 ++ (entryTags entry.style).2) := by
  have htext : tags entry.text = some [] := tags_of_plain fun c hc => h c (List.mem_append_right _ hc)
  have hopen := tags_entryOpen languages fun c hc => h c (List.mem_append_left _ hc)
  have htags := tags_append (tags_append hopen htext) (tags_suffixHttp entry.style)
  rwa [List.append_nil] at htags

theorem nest_entryTags (style : EntryStyle) (opened : List (List UInt8)) :
    nest isVoid ((entryTags style).1 ++ (entryTags style).2) opened = some opened := by
  cases style <;> rfl

theorem tags_runHtml {run : List Entry} (h : ∀ e ∈ run, e.FreeOfMarkup) :
    tags (runHtml languages run) = some (runTags run) := by
  cases run with
  | nil => rfl
  | cons entry run =>
    have hlist : tags (listOpen entry.style) = some (listTags entry.style).1 ∧
        tags (listClose entry.style) = some (listTags entry.style).2 := by
      cases entry.style <;> decide
    exact tags_append (tags_append hlist.1 (tags_flatMap fun e he => tags_entryHtml (h e he))) hlist.2

/-- A run opens and closes a list around its entries. -/
theorem nest_runTags (run : List Entry) (opened : List (List UInt8)) :
    nest isVoid (runTags run) opened = some opened := by
  cases run with
  | nil => rfl
  | cons entry run =>
    obtain ⟨inner, hopen, hclose⟩ : ∃ inner, nest isVoid (listTags entry.style).1 opened = some inner ∧
        nest isVoid (listTags entry.style).2 inner = some opened := by
      cases entry.style with
      | itemize => exact ⟨ascii "ul" :: opened, rfl, rfl⟩
      | enumeration => exact ⟨ascii "ol" :: opened, rfl, rfl⟩
      | _ => exact ⟨opened, rfl, rfl⟩
    rw [runTags, nest_append, nest_append, hopen, Option.bind_some,
      nest_flatMap fun e _ => nest_entryTags e.style inner, Option.bind_some, hclose]

/-- The tags of the page in front of the entries. -/
def openTags : List Tag :=
  [.declaration, .opening (ascii "html"), .opening (ascii "head"), .opening (ascii "meta"),
    .opening (ascii "meta"), .opening (ascii "title"), .closing (ascii "title"),
    .closing (ascii "head"), .opening (ascii "body")]

theorem tags_htmlOpen : tags htmlOpen = some openTags := by decide +kernel

theorem tags_htmlClose : tags htmlClose = some [.closing (ascii "body"), .closing (ascii "html")] := by
  decide

/-- Whether a run has a style. -/
def hasStyle (style : EntryStyle) (run : List Entry) : Bool := run.head?.map (·.style) = some style

/-- Only the list around a run begins with the tag of one, and it does so once. -/
theorem count_runTags {style : EntryStyle} {tag : Tag} (htag : (listTags style).1 = [tag])
    (run : List Entry) : (runTags run).count tag = if hasStyle style run then 1 else 0 := by
  have hstyle : style = .itemize ∧ tag = .opening (ascii "ul") ∨
      style = .enumeration ∧ tag = .opening (ascii "ol") := by
    cases style <;> simp_all [listTags]
  cases run with
  | nil => rfl
  | cons entry run =>
    have hentries : ((entry :: run).flatMap fun e =>
        (entryTags e.style).1 ++ (entryTags e.style).2).count tag = 0 := by
      rw [List.count_eq_zero, List.mem_flatMap]
      rintro ⟨e, -, he⟩
      revert he
      rcases hstyle with ⟨-, rfl⟩ | ⟨-, rfl⟩ <;> cases e.style <;> decide
    have hlists : (listTags entry.style).1.count tag + (listTags entry.style).2.count tag
        = if entry.style = style then 1 else 0 := by
      rcases hstyle with ⟨rfl, rfl⟩ | ⟨rfl, rfl⟩ <;> cases entry.style <;> decide
    have hhead : hasStyle style (entry :: run) = decide (entry.style = style) := by
      simp [hasStyle]
    rw [runTags, List.count_append, List.count_append, hentries, Nat.add_zero, hlists, hhead]
    simp only [decide_eq_true_iff]

theorem count_runs {style : EntryStyle} {tag : Tag} (htag : (listTags style).1 = [tag])
    (runs : List (List Entry)) : (runs.flatMap runTags).count tag = runs.countP (hasStyle style) := by
  induction runs with
  | nil => rfl
  | cons run runs ih =>
    rw [List.flatMap_cons, List.count_append, ih, count_runTags htag, List.countP_cons, Nat.add_comm]

/-- The runs of items are the only lists of a body, and each has one list around it. -/
structure ListsWrapped (languages : LinkLanguages) (entries : List Entry) (body : List UInt8) :
    Prop where
  wrapped : body = htmlPage languages entries
  unordered : (tags body).map (·.count (.opening (ascii "ul")))
    = some ((styleRuns entries).countP (hasStyle .itemize))
  ordered : (tags body).map (·.count (.opening (ascii "ol")))
    = some ((styleRuns entries).countP (hasStyle .enumeration))

theorem tags_htmlPage {entries : List Entry} (h : ∀ entry ∈ entries, entry.FreeOfMarkup) :
    tags (htmlPage languages entries) = some (openTags ++ (styleRuns entries).flatMap runTags
      ++ [.closing (ascii "body"), .closing (ascii "html")]) := by
  have hruns : tags ((styleRuns entries).flatMap (runHtml languages))
      = some ((styleRuns entries).flatMap runTags) := by
    refine tags_flatMap fun run hrun => tags_runHtml fun entry hentry => h entry ?_
    have hflatten : (styleRuns entries).flatten = entries := List.flatten_splitBy _ entries
    rw [← hflatten]
    exact List.mem_flatten.mpr ⟨run, hrun, hentry⟩
  exact tags_append (tags_append tags_htmlOpen hruns) tags_htmlClose

theorem listsWrapped_htmlPage {entries : List Entry} (h : ∀ entry ∈ entries, entry.FreeOfMarkup) :
    ListsWrapped languages entries (htmlPage languages entries) := by
  have hcount : ∀ {style tag}, (listTags style).1 = [tag] → openTags.count tag = 0 →
      [Tag.closing (ascii "body"), .closing (ascii "html")].count tag = 0 →
      (tags (htmlPage languages entries)).map (·.count tag)
        = some ((styleRuns entries).countP (hasStyle style)) := by
    intro style tag htag hbegin hend
    rw [tags_htmlPage h, Option.map_some, List.count_append, List.count_append, hbegin, hend,
      count_runs htag, Nat.zero_add, Nat.add_zero]
  exact ⟨rfl, hcount rfl (by decide) (by decide), hcount rfl (by decide) (by decide)⟩

/-- Every entry closes what it opens, and so does the page. -/
theorem wellNested_htmlPage {entries : List Entry} (h : ∀ entry ∈ entries, entry.FreeOfMarkup) :
    WellNested isVoid (htmlPage languages entries) := by
  refine ⟨_, tags_htmlPage h, ?_⟩
  have hbody : nest isVoid openTags [] = some [ascii "body", ascii "html"] := by decide
  rw [nest_append, nest_append, hbody, Option.bind_some,
    nest_flatMap fun run _ => nest_runTags run _]
  rfl

end

/-! ## The length of the content -/

/-- The header has the length that it was printed with, as far as an `unsigned int` goes. -/
theorem contentLength_httpTemplateSuccess (n : ℕ) (connection date : List UInt8) :
    contentLength (httpTemplateSuccess n connection date) = some (n % uintModulus) := by
  obtain ⟨-, hall, hnumber⟩ := decimal_spec n
  have hdigits : ∀ rest, (decimal n ++ (crlf ++ rest)).takeWhile isDecimal = decimal n := by
    intro rest
    rw [List.takeWhile_append_of_pos (List.all_eq_true.mp hall)]
    exact List.append_nil _
  have hline : ∀ rest, contentLength (ascii "Content-Length: " ++ (decimal n ++ (crlf ++ rest)))
      = some (digitsNumber ((decimal n ++ (crlf ++ rest)).takeWhile isDecimal)) := fun rest => rfl
  have hstatus : ∀ rest, contentLength (ascii "HTTP/1.1 200 OK\r\n" ++ rest) = contentLength rest :=
    fun rest => rfl
  have hserver : ∀ rest, contentLength (ascii "Server: Twinkleshine\r\n" ++ rest)
      = contentLength rest := fun rest => rfl
  have hcache : ∀ rest, contentLength (ascii "Cache-Control: no-cache, no-store, must-revalidate\r\n"
      ++ rest) = contentLength rest := fun rest => rfl
  have htype : ∀ rest, contentLength (ascii "Content-Type: text/html; charset=UTF-8\r\n" ++ rest)
      = contentLength rest := fun rest => rfl
  unfold httpTemplateSuccess
  simp only [List.append_assoc]
  rw [hstatus, hserver, hcache, htype, hline, hdigits, hnumber]

/-! ## Printed pages -/

section

variable {date : List UInt8}

/-- An allocator that gives everything lets every entry be printed. -/
theorem processorPrintHttp_granted (date : List UInt8) (context : PrintContext) (style : EntryStyle)
    (resource text : List UInt8) :
    ∃ printed, processorPrint (processorPrintHttp (fun _ => none) date) context style resource text
      = .ok printed := by
  have hprint : ∀ context, ∃ printed, processorPrintHttp (fun _ => none) date context style resource text
      = .ok printed := by
    intro context
    unfold processorPrintHttp
    rw [appendTexts_granted]
    cases style with
    | initial | final => exact ⟨_, rfl⟩
    | _ =>
      dsimp only [Except.bind]
      rw [appendTexts_granted]
      exact ⟨_, rfl⟩
  obtain ⟨printed, hprinted⟩ := hprint { context with
    listIndex := if style = .enumeration then (context.listIndex + 1) % uintModulus else 0 }
  exact ⟨{ printed with previousStyle := style }, map_eq_ok.mpr ⟨printed, hprinted, rfl⟩⟩

theorem printPage_http_granted (date : List UInt8) (context : PrintContext) (entries : List Entry) :
    ∃ page, printPage (processorPrintHttp (fun _ => none) date) context entries = .ok page := by
  have hentries : ∀ context, ∃ printed,
      printEntries (processorPrintHttp (fun _ => none) date) context entries = .ok printed := by
    induction entries with
    | nil => exact fun context => ⟨context, rfl⟩
    | cons entry entries ih =>
      intro context
      obtain ⟨next, hnext⟩ := processorPrintHttp_granted date
        { context with language := entry.language } entry.style entry.resource entry.text
      obtain ⟨printed, hprinted⟩ := ih next
      exact ⟨printed, foldlM_cons_eq_ok.mpr ⟨next, hnext, hprinted⟩⟩
  obtain ⟨first, hfirst⟩ := processorPrintHttp_granted date context .initial [] []
  obtain ⟨last, hlast⟩ := hentries first
  obtain ⟨page, hpage⟩ := processorPrintHttp_granted date last .final [] []
  exact ⟨page, bind_eq_ok.mpr ⟨first, hfirst, bind_eq_ok.mpr ⟨last, hlast, hpage⟩⟩⟩

variable {refusal : Refusal} {context page : PrintContext} {entries : List Entry}

/-- A printed body is the page as it should be, and its header has the length that fits into an
`unsigned int`. -/
theorem printPage_htmlPage
    (h : printPage (processorPrintHttp refusal date) context entries = .ok page) :
    page.two = htmlPage context.languages entries ∧
      contentLength page.one = some (page.two.length % uintModulus) := by
  obtain ⟨hbody, hheader⟩ := printPage_http h
  refine ⟨?_, ?_⟩
  · rw [hbody, entriesAdded_eq, htmlPage]
  · rw [hheader, contentLength_httpTemplateSuccess]

/-- Whatever the styles, a printed page is properly nested, its runs of items are in one list each, and
the header has its length unless that is too much for an `unsigned int`. -/
theorem printPage_http_iff (hmarkup : ∀ entry ∈ entries, entry.FreeOfMarkup)
    (h : printPage (processorPrintHttp refusal date) context entries = .ok page) :
    WellNested isVoid page.two ∧ ListsWrapped context.languages entries page.two ∧
        contentLength page.one = some page.two.length ↔
      (htmlPage context.languages entries).length < 2 ^ 32 := by
  obtain ⟨hbody, hlength⟩ := printPage_htmlPage h
  rw [hlength, hbody, Option.some.injEq]
  have hmod : (htmlPage context.languages entries).length % uintModulus
      = (htmlPage context.languages entries).length ↔
        (htmlPage context.languages entries).length < 2 ^ 32 := Nat.mod_eq_iff_lt (by decide)
  rw [hmod]
  constructor
  · exact fun h => h.2.2
  · exact fun h => ⟨wellNested_htmlPage hmarkup, listsWrapped_htmlPage hmarkup, h⟩

end

/-- Two items in front of a paragraph. -/
theorem printPage_http_iff_items :
    let context : PrintContext := ⟨[], [], 101, true, .initial, 0, 101, 0⟩
    let item : Entry := ⟨.itemize, 101, [], ascii "Item", by decide⟩
    let paragraph : Entry := ⟨.paragraph, 101, [], ascii "Text", by decide⟩
    ∃ page, printPage (processorPrintHttp (fun _ => none) []) context [item, item, paragraph] = .ok page ∧
      (WellNested isVoid page.two ∧
          ListsWrapped context.languages [item, item, paragraph] page.two ∧
          contentLength page.one = some page.two.length ↔
        (htmlPage context.languages [item, item, paragraph]).length < 2 ^ 32) := by
  intro context item paragraph
  obtain ⟨page, hpage⟩ := printPage_http_granted [] context [item, item, paragraph]
  refine ⟨page, hpage, printPage_http_iff ?_ hpage⟩
  have hitem : ∀ c ∈ ascii "Item", isAngle c = false := forall_mem_of_all rfl
  have hparagraph : ∀ c ∈ ascii "Text", isAngle c = false := forall_mem_of_all rfl
  intro entry hentry
  simp only [List.mem_cons, List.not_mem_nil, or_false] at hentry
  rcases hentry with rfl | rfl | rfl
  · exact hitem
  · exact hitem
  · exact hparagraph

/-- A text of 2^32 bytes is left out of the length. -/
theorem contentLength_wraps :
    let context : PrintContext := ⟨[], [], 101, true, .initial, 0, 101, 0⟩
    let entry : Entry := ⟨.normal, 101, [], List.replicate (2 ^ 32) 97, by decide⟩
    entry.FreeOfMarkup ∧ ∃ page,
      printPage (processorPrintHttp (fun _ => none) []) context [entry] = .ok page ∧
        contentLength page.one ≠ some page.two.length := by
  intro context entry
  have hmarkup : entry.FreeOfMarkup := by
    intro c hc
    rw [List.eq_of_mem_replicate hc]
    rfl
  obtain ⟨page, hpage⟩ := printPage_http_granted [] context [entry]
  refine ⟨hmarkup, page, hpage, ?_⟩
  obtain ⟨hbody, -⟩ := printPage_http hpage
  rw [(printPage_htmlPage hpage).2, Ne, Option.some.injEq]
  have htext : ∀ text : List UInt8, text.length ≤ (htmlOpen ++ entriesAdded context.languages .initial
      [⟨.normal, 101, [], text, by decide⟩] ++ htmlClose).length := by
    intro text
    simp only [entriesAdded, entryAdded, entryHtml, List.length_append]
    omega
  have hlong : 2 ^ 32 ≤ page.two.length := by
    rw [hbody]
    exact (List.length_replicate (n := 2 ^ 32) (a := (97 : UInt8))).ge.trans (htext _)
  have hmod : page.two.length % uintModulus < 2 ^ 32 := Nat.mod_lt _ (by decide)
  omega

end Twinkleshine
