import Twinkleshine.Processor.PrintGemini
import Twinkleshine.Processor.Wrap

/-!
# Printing plain text

Reference: `processor_print_nex` in `source/processor/nex_processor.c`, `processor_print_text` in
`source/processor/text_processor.c`, `processor_print_finger` in `source/processor/finger_processor.c`.

A page is lines, with empty ones around its paragraphs. Nex and Text end lines with a line feed and wrap
paragraphs; Finger does neither. Titles are put into boxes.
-/

namespace Twinkleshine

open Library

/-! ## Links -/

/-- `TEXT_PORT_STRING` -/
def textPortString (release : Bool) : List UInt8 := portString release (ascii "9961")

/-- `FINGER_PORT_STRING` -/
def fingerPortString (release : Bool) : List UInt8 := portString release (ascii "8079")

/-- An internal reference of Nex, which is relative. -/
def nexPath (languages : LinkLanguages) (language : UInt8) (resource : List UInt8) : List UInt8 :=
  slashPath languages language resource ++ ascii "/"

/-- The URL of an internal reference in Text. -/
def textUrl (release : Bool) (languages : LinkLanguages) (language : UInt8) (resource : List UInt8) :
    List UInt8 :=
  ascii "text://" ++ domainName release ++ textPortString release ++ slashPath languages language resource

/-- The URL of an internal reference in Finger. -/
def fingerUrl (release : Bool) (languages : LinkLanguages) (language : UInt8) (resource : List UInt8) :
    List UInt8 :=
  ascii "finger://" ++ domainName release ++ fingerPortString release
    ++ slashPath languages language resource

/-! ## Printing -/

/-- `ENDLINE` of Nex and Text -/
def lineFeed : List UInt8 := [10]

/-- Pre-prefix -/
def appendSeparator (refusal : Refusal) (endline : List UInt8) (context : PrintContext)
    (style : EntryStyle) : Except Error (List UInt8) :=
  if (processorGenericParagraph style || processorGenericParagraph context.previousStyle) ∧
      style ≠ .final ∧ context.previousStyle ≠ .initial then
    appendText refusal context.one endline
  else .ok context.one

/-- The suffix of `ES_LARGE` and `ES_LARGER` -/
def appendCapitals (refusal : Refusal) (endline one : List UInt8) (oldSize : ℕ) :
    Except Error (List UInt8) :=
  (appendText refusal one endline).map fun one => processorGenericUpperCase one oldSize 0 endline.length

/-- The suffix of `ES_LARGEST` and `ES_HEADER` -/
def appendBox (refusal : Refusal) (endline one : List UInt8) (oldSize : ℕ) : Except Error (List UInt8) :=
  (appendText refusal one (ascii " #" ++ endline)).bind fun one =>
  let one := processorGenericUpperCase one oldSize (ascii "# ").length (ascii " #" ++ endline).length
  processorGenericBox refusal one oldSize (ascii "#").length (ascii "#" ++ endline).length 35 35

/-- Prefix, if there is one -/
def prefixNex (context : PrintContext) (style : EntryStyle) (resource : List UInt8) :
    List (List UInt8) :=
  match style with
  | .normal | .paragraph | .large | .larger => []
  | .itemize => [ascii " - "]
  | .enumeration => [ascii " " ++ decimal context.listIndex ++ ascii ". "]
  | .quote => [ascii " > "]
  | .largest | .header => [ascii "# "]
  | .internalReference =>
    [ascii "=> " ++ nexPath context.languages context.language resource ++ ascii " "]
  | _ => [ascii "=> " ++ resource ++ ascii " "]

/-- Suffix -/
def suffixNex (refusal : Refusal) (style : EntryStyle) (one : List UInt8) (oldSize : ℕ) :
    Except Error (List UInt8) :=
  match style with
  | .normal | .paragraph => appendText refusal (one.take oldSize ++ wrap (one.drop oldSize)) lineFeed
  | .large | .larger => appendCapitals refusal lineFeed one oldSize
  | .largest | .header => appendBox refusal lineFeed one oldSize
  | _ => appendText refusal one lineFeed

/-- `processor_print_nex` -/
def processorPrintNex (refusal : Refusal) : PrintFunction := fun context style resource text =>
  (appendSeparator refusal lineFeed context style).bind fun one =>
  let oldSize := one.length
  match style with
  | .initial => .ok { context with one := [], two := [] }
  | .final => .ok { context with one }
  | style =>
    ((appendTexts refusal one (prefixNex context style resource ++ [text])).bind fun one =>
      suffixNex refusal style one oldSize).map fun one => { context with one }

/-- `processor_print_text` -/
def processorPrintText (refusal : Refusal) (release : Bool) : PrintFunction :=
  fun context style resource text =>
  match style with
  | .initial => -- overload, different status code
    (appendText refusal [] (ascii "20 text/plain\r\n")).map fun one => { context with one, two := [] }
  | .internalReference => -- overload, different protocol
    (appendTexts refusal context.one
      [ascii "=> " ++ textUrl release context.languages context.language resource ++ ascii " ", text,
        lineFeed]).map fun one => { context with one }
  | style => processorPrintNex refusal context style resource text

/-- Prefix, if there is one -/
def prefixFinger (context : PrintContext) (style : EntryStyle) : List (List UInt8) :=
  match style with
  | .itemize => [ascii " - "]
  | .enumeration => [ascii " " ++ decimal context.listIndex ++ ascii ". "]
  | .quote => [ascii " > "]
  | .largest | .header => [ascii "# "]
  | _ => []

/-- Suffix -/
def suffixFinger (refusal : Refusal) (release : Bool) (context : PrintContext) (style : EntryStyle)
    (resource one : List UInt8) (oldSize : ℕ) : Except Error (List UInt8) :=
  match style with
  | .large | .larger => appendCapitals refusal crlf one oldSize
  | .largest | .header => appendBox refusal crlf one oldSize
  | .internalReference =>
    appendText refusal one
      (ascii ": " ++ fingerUrl release context.languages context.language resource ++ crlf)
  | .externalReference => appendText refusal one (ascii ": " ++ resource ++ crlf)
  | _ => appendText refusal one crlf

/-- `processor_print_finger` -/
def processorPrintFinger (refusal : Refusal) (release : Bool) : PrintFunction :=
  fun context style resource text =>
  (appendSeparator refusal crlf context style).bind fun one =>
  let oldSize := one.length
  match style with
  | .initial => .ok { context with one := [], two := [] }
  | .final => .ok { context with one }
  | style =>
    ((appendTexts refusal one (prefixFinger context style ++ [text])).bind fun one =>
      suffixFinger refusal release context style resource one oldSize).map fun one => { context with one }

/-! ## What is appended -/

/-- An empty line that separates entries, one of which is a paragraph. -/
def separates (previous style : EntryStyle) : Bool :=
  (processorGenericParagraph style || processorGenericParagraph previous) && previous ≠ .initial

/-- A title between two borders. Its glyphs are counted, and spaces make up for the rest of its bytes. -/
def boxLines (text : List UInt8) : List (List UInt8) :=
  let middle := ascii " " ++ text.map upperByte ++ ascii " "
  let border := ascii "#" ++ alternating 35 35 (middle.length - middle.countP isContinuation) middle.length
    ++ ascii "#"
  [border, ascii "#" ++ middle ++ ascii "#", border]

/-- The lines of a text. -/
def textLines (text : List UInt8) : List (List UInt8) := text.splitOn 10

/-- The lines of an entry in Nex and Text. -/
def nexEntry (link : UrlFunction) (languages : LinkLanguages) (number : ℕ) (entry : Entry) :
    List (List UInt8) :=
  match entry.style with
  | .normal | .paragraph => textLines (wrap entry.text)
  | .itemize => [ascii " - " ++ entry.text]
  | .enumeration => [ascii " " ++ decimal number ++ ascii ". " ++ entry.text]
  | .quote => [ascii " > " ++ entry.text]
  | .large | .larger => [entry.text.map upperByte]
  | .largest | .header => boxLines entry.text
  | .internalReference =>
    [ascii "=> " ++ link languages entry.language entry.resource ++ ascii " " ++ entry.text]
  | _ => [ascii "=> " ++ entry.resource ++ ascii " " ++ entry.text]

/-- The lines of an entry in Finger. -/
def fingerEntry (link : UrlFunction) (languages : LinkLanguages) (number : ℕ) (entry : Entry) :
    List (List UInt8) :=
  match entry.style with
  | .normal | .paragraph => [entry.text]
  | .itemize => [ascii " - " ++ entry.text]
  | .enumeration => [ascii " " ++ decimal number ++ ascii ". " ++ entry.text]
  | .quote => [ascii " > " ++ entry.text]
  | .large | .larger => [entry.text.map upperByte]
  | .largest | .header => boxLines entry.text
  | .internalReference => [entry.text ++ ascii ": " ++ link languages entry.language entry.resource]
  | _ => [entry.text ++ ascii ": " ++ entry.resource]

/-- What is appended for an entry: perhaps an empty line, and its lines. -/
def plainAdded (endline : List UInt8) (separates : EntryStyle → EntryStyle → Bool)
    (lines : LinkLanguages → ℕ → Entry → List (List UInt8)) : Added :=
  fun languages previous number entry =>
    ((if separates previous entry.style then [[]] else []) ++ lines languages number entry).flatMap
      (· ++ endline)

/-- Text leaves the empty line out in front of its internal references. -/
def separatesText (previous style : EntryStyle) : Bool :=
  style ≠ .internalReference && separates previous style

section

variable {refusal : Refusal} {endline : List UInt8}

theorem appendSeparator_yields (refusal : Refusal) (endline : List UInt8) (context : PrintContext)
    {style : EntryStyle} (hstyle : style ≠ .final) :
    Yields (appendSeparator refusal endline context style)
      (· = context.one ++ if separates context.previousStyle style then endline else [])
      (Refused refusal) := by
  unfold appendSeparator
  by_cases h : (processorGenericParagraph style || processorGenericParagraph context.previousStyle) ∧
      style ≠ .final ∧ context.previousStyle ≠ .initial
  · have hseparates : separates context.previousStyle style = true := by
      rw [separates, h.1, Bool.true_and]
      exact decide_eq_true h.2.2
    rw [if_pos h, hseparates, if_pos rfl]
    exact appendText_yields refusal context.one endline
  · have hseparates : separates context.previousStyle style = false := by
      refine Bool.eq_false_iff.mpr fun hs => h ?_
      obtain ⟨hparagraph, hprevious⟩ := Bool.and_eq_true_iff.mp hs
      exact ⟨hparagraph, hstyle, of_decide_eq_true hprevious⟩
    rw [if_neg h, hseparates, if_neg Bool.false_ne_true, List.append_nil]
    exact rfl

theorem appendCapitals_yields (refusal : Refusal) (endline old text : List UInt8) :
    Yields (appendCapitals refusal endline (old ++ text) old.length)
      (· = old ++ (text.map upperByte ++ endline)) (Refused refusal) := by
  refine (appendText_yields refusal (old ++ text) endline).map fun one hone => ?_
  rw [hone, processorGenericUpperCase_eq rfl, List.append_assoc]

theorem countP_isContinuation_of_all {text : List UInt8}
    (h : text.all (fun c => !isContinuation c) = true) : text.countP isContinuation = 0 := by
  refine List.countP_eq_zero.mpr fun c hc => ?_
  simpa using List.all_eq_true.mp h c hc

/-- A title is put into capitals and between borders. -/
theorem titleBox_yields (refusal : Refusal) (old mark opening text closing tail : List UInt8)
    (c1 c2 : UInt8) :
    Yields ((appendText refusal (old ++ (mark ++ opening ++ text)) (closing ++ tail)).bind fun one =>
        processorGenericBox refusal (processorGenericUpperCase one old.length (mark ++ opening).length
          (closing ++ tail).length) old.length mark.length tail.length c1 c2)
      (fun one =>
        let middle := opening ++ text.map upperByte ++ closing
        let border := alternating c1 c2 (middle.length - (mark ++ middle ++ tail).countP isContinuation)
          middle.length
        one = old ++ ((mark ++ border ++ tail) ++ (mark ++ middle ++ tail) ++ (mark ++ border ++ tail)))
      (Refused refusal) := by
  refine (appendText_yields refusal _ _).bind ?_
  rintro _ rfl
  have hupper : processorGenericUpperCase (old ++ (mark ++ opening ++ text) ++ (closing ++ tail))
        old.length (mark ++ opening).length (closing ++ tail).length
      = old ++ (mark ++ (opening ++ text.map upperByte ++ closing) ++ tail) := by
    rw [← List.append_assoc old, processorGenericUpperCase_eq (by rw [List.length_append])]
    simp only [List.append_assoc]
  rw [hupper]
  have hrefused : Yields (processorGenericBox refusal (old ++ (mark
      ++ (opening ++ text.map upperByte ++ closing) ++ tail)) old.length mark.length tail.length c1 c2)
      (fun _ => True) (Refused refusal) :=
    (appendText_yields refusal _ _).map fun _ _ => trivial
  exact hrefused.of_forall_ok fun one hone => processorGenericBox_border hone

/-- Neither the marks around a title nor the end of its line have more bytes than glyphs. -/
theorem countP_marked {mark middle tail : List UInt8}
    (hmark : mark.all (fun c => !isContinuation c) = true)
    (htail : tail.all (fun c => !isContinuation c) = true) :
    (mark ++ middle ++ tail).countP isContinuation = middle.countP isContinuation := by
  rw [List.countP_append, List.countP_append, countP_isContinuation_of_all hmark,
    countP_isContinuation_of_all htail, Nat.zero_add, Nat.add_zero]

theorem appendBox_yields (refusal : Refusal) {endline : List UInt8}
    (hendline : endline.all (fun c => !isContinuation c) = true) (old text : List UInt8) :
    Yields (appendBox refusal endline (old ++ (ascii "# " ++ text)) old.length)
      (· = old ++ (boxLines text).flatMap (· ++ endline)) (Refused refusal) := by
  have hbox := titleBox_yields refusal old (ascii "#") (ascii " ") text (ascii " ") (ascii "#" ++ endline) 35 35
  refine Yields.mono hbox ?_
  rintro _ rfl
  rw [boxLines, countP_marked (by decide) (by rw [List.all_append, hendline]; rfl)]
  simp only [List.flatMap_cons, List.flatMap_nil, List.append_nil, List.append_assoc]

theorem flatMap_textLines (text : List UInt8) : (textLines text).flatMap (· ++ lineFeed) = text ++ [10] := by
  have hjoin : ∀ lines : List (List UInt8), lines ≠ [] →
      lines.flatMap (· ++ lineFeed) = [10].intercalate lines ++ [10] := by
    intro lines hne
    induction lines with
    | nil => exact absurd rfl hne
    | cons line rest ih =>
      cases rest with
      | nil => simp [lineFeed]
      | cons next rest =>
        rw [List.flatMap_cons, ih (List.cons_ne_nil next rest)]
        simp [lineFeed, List.append_assoc]
  rw [textLines, hjoin _ (List.splitOn_ne_nil 10 text), List.intercalate_splitOn]

/-- A separator and the lines behind it. -/
theorem plainAdded_eq {endline : List UInt8} {separates : EntryStyle → EntryStyle → Bool}
    {lines : LinkLanguages → ℕ → Entry → List (List UInt8)} (one : List UInt8) (languages : LinkLanguages)
    (previous : EntryStyle) (number : ℕ) (entry : Entry) :
    one ++ plainAdded endline separates lines languages previous number entry
      = one ++ (if separates previous entry.style then endline else [])
        ++ (lines languages number entry).flatMap (· ++ endline) := by
  rw [plainAdded, List.flatMap_append, List.append_assoc]
  cases separates previous entry.style <;> simp

/-- A printer that puts the lines of an entry behind a separator. -/
theorem printsBody_of_lines {print : PrintFunction}
    {lines : LinkLanguages → ℕ → Entry → List (List UInt8)}
    {printLines : PrintContext → EntryStyle → List UInt8 → List UInt8 → List UInt8 →
      Except Error (List UInt8)}
    (hprint : ∀ context style resource text, print context style resource text
      = (appendSeparator refusal endline context style).bind fun one =>
        match style with
        | .initial => .ok { context with one := [], two := [] }
        | .final => .ok { context with one }
        | style => (printLines context style resource text one).map fun one => { context with one })
    (hlines : ∀ (context : PrintContext) (entry : Entry) (one : List UInt8),
      context.language = entry.language →
      Yields (printLines context entry.style entry.resource entry.text one)
        (· = one ++ (lines context.languages context.listIndex entry).flatMap (· ++ endline))
        (Refused refusal)) :
    PrintsBody print [] .ok (plainAdded endline separates lines) (Refused refusal) where
  initial context := by
    rw [hprint]
    exact (appendSeparator_yields refusal endline context (by decide)).bind fun _ _ => rfl
  final context := by
    have hone : appendSeparator refusal endline context .final = .ok context.one :=
      if_neg fun h => h.2.1 rfl
    rw [hprint, hone]
    exact ⟨rfl, rfl⟩
  entry context entry hlanguage := by
    obtain ⟨hinitial, hfinal⟩ := entry.content
    rw [hprint]
    refine (appendSeparator_yields refusal endline context hfinal).bind ?_
    rintro _ rfl
    rw [plainAdded_eq]
    split
    · exact absurd ‹_› hinitial
    · exact absurd ‹_› hfinal
    · refine (hlines context entry _ hlanguage).map fun one hone => ?_
      rw [hone]

theorem processorPrintNex_printsBody (refusal : Refusal) :
    PrintsBody (processorPrintNex refusal) [] .ok (plainAdded lineFeed separates (nexEntry nexPath))
      (Refused refusal) := by
  refine printsBody_of_lines (fun _ _ _ _ => rfl) fun context entry old hlanguage => ?_
  obtain ⟨hinitial, hfinal⟩ := entry.content
  refine (appendTexts_yields refusal old _).bind ?_
  rintro _ rfl
  unfold nexEntry suffixNex
  rw [← hlanguage]
  generalize entry.style = style at hinitial hfinal ⊢
  cases style with
  | initial => exact absurd rfl hinitial
  | final => exact absurd rfl hfinal
  | normal | paragraph =>
    refine (appendText_yields refusal _ lineFeed).mono ?_
    rintro _ rfl
    simp only [prefixNex, List.nil_append, List.flatten_singleton, List.take_left, List.drop_left,
      flatMap_textLines, List.append_assoc]
    rfl
  | large | larger =>
    simpa [prefixNex] using appendCapitals_yields refusal lineFeed old entry.text
  | largest | header =>
    simpa [prefixNex] using appendBox_yields refusal (by decide) old entry.text
  | _ =>
    refine (appendText_yields refusal _ lineFeed).mono ?_
    rintro _ rfl
    simp [prefixNex]

theorem processorPrintFinger_printsBody (refusal : Refusal) (release : Bool) :
    PrintsBody (processorPrintFinger refusal release) [] .ok
      (plainAdded crlf separates (fingerEntry (fingerUrl release))) (Refused refusal) := by
  refine printsBody_of_lines (fun _ _ _ _ => rfl) fun context entry old hlanguage => ?_
  obtain ⟨hinitial, hfinal⟩ := entry.content
  refine (appendTexts_yields refusal old _).bind ?_
  rintro _ rfl
  unfold fingerEntry suffixFinger
  rw [← hlanguage]
  generalize entry.style = style at hinitial hfinal ⊢
  cases style with
  | initial => exact absurd rfl hinitial
  | final => exact absurd rfl hfinal
  | large | larger =>
    simpa [prefixFinger] using appendCapitals_yields refusal crlf old entry.text
  | largest | header =>
    simpa [prefixFinger] using appendBox_yields refusal (by decide) old entry.text
  | _ =>
    refine (appendText_yields refusal _ _).mono ?_
    rintro _ rfl
    simp [prefixFinger]

/-- Text inherits all but its status and its internal references. -/
theorem processorPrintText_printsBody (refusal : Refusal) (release : Bool) :
    PrintsBody (processorPrintText refusal release) (ascii "20 text/plain\r\n") .ok
      (plainAdded lineFeed separatesText (nexEntry (textUrl release))) (Refused refusal) where
  initial context := (appendText_yields refusal [] _).map fun one hone => by rw [hone, List.nil_append]
  final context := (processorPrintNex_printsBody refusal).final context
  entry context entry hlanguage := by
    by_cases hstyle : entry.style = .internalReference
    · rw [hstyle]
      refine (appendTexts_yields refusal context.one _).map fun one hone => ?_
      rw [hone, plainAdded, nexEntry, hstyle, hlanguage]
      simp [separatesText, List.append_assoc]
    · -- no other entry has a URL of the protocol
      have hlines : nexEntry nexPath context.languages context.listIndex entry
          = nexEntry (textUrl release) context.languages context.listIndex entry := by
        unfold nexEntry
        split <;> first | rfl | exact absurd ‹_› hstyle
      have hseparates : separatesText context.previousStyle entry.style
          = separates context.previousStyle entry.style := by
        rw [separatesText, decide_eq_true hstyle, Bool.true_and]
      have hinherit : processorPrintText refusal release context entry.style entry.resource entry.text
          = processorPrintNex refusal context entry.style entry.resource entry.text := by
        obtain ⟨hinitial, -⟩ := entry.content
        unfold processorPrintText
        split
        · exact absurd ‹_› hinitial
        · exact absurd ‹_› hstyle
        · rfl
      rw [hinherit, plainAdded, hseparates, ← hlines]
      exact (processorPrintNex_printsBody refusal).entry context entry hlanguage

end

/-! ## Lines that are read -/

/-- An entry with a line of words, which single spaces separate. -/
structure Entry.InPlainText (entry : Entry) : Prop where
  line : IsLine entry.text
  words : ∀ word ∈ entry.text.splitOn 32, word ≠ []
  resource : entry.resource.all isUrlByte = true

theorem Entry.InPlainText.nonempty {entry : Entry} (h : entry.InPlainText) : entry.text ≠ [] := by
  intro hnil
  have hwords := h.words
  rw [hnil, List.splitOn_nil] at hwords
  exact hwords [] List.mem_cons_self rfl

/-- A line that is split off is a part of the text without line feeds. -/
theorem mem_textLines {text line : List UInt8} (hline : line ∈ textLines text) :
    ∀ c ∈ line, c ≠ 10 ∧ c ∈ text := by
  unfold textLines at hline
  induction text generalizing line with
  | nil =>
    rw [List.splitOn_nil, List.mem_singleton] at hline
    rw [hline]
    exact fun c hc => absurd hc List.not_mem_nil
  | cons d text ih =>
    obtain ⟨first, rest, hsplit⟩ := List.exists_cons_of_ne_nil (List.splitOn_ne_nil 10 text)
    rw [hsplit] at ih
    rw [List.splitOn_cons_eq_if_modifyHead, hsplit] at hline
    have hkept : ∀ line ∈ first :: rest, ∀ c ∈ line, c ≠ 10 ∧ c ∈ d :: text := fun line hline c hc =>
      ⟨(ih hline c hc).1, List.mem_cons_of_mem d (ih hline c hc).2⟩
    split_ifs at hline with hd
    · rcases List.mem_cons.mp hline with rfl | hline
      · exact fun c hc => absurd hc List.not_mem_nil
      · exact hkept line hline
    · rcases List.mem_cons.mp hline with rfl | hline
      · intro c hc
        rcases List.mem_cons.mp hc with rfl | hc
        · exact ⟨by simpa using hd, List.mem_cons_self⟩
        · exact hkept first List.mem_cons_self c hc
      · exact hkept line (List.mem_cons_of_mem first hline)

/-- Where spaces become newlines, the lines are words, or several of them. -/
theorem textLines_nonempty {text wrapped : List UInt8} (h : List.Forall₂ KeptOrBroken text wrapped)
    (hfree : 10 ∉ text) : ((∀ word ∈ (text.splitOn 32).tail, word ≠ []) →
      ∀ line ∈ (textLines wrapped).tail, line ≠ []) ∧
    ((∀ word ∈ text.splitOn 32, word ≠ []) → ∀ line ∈ textLines wrapped, line ≠ []) := by
  unfold textLines
  induction h with
  | nil =>
    refine ⟨fun _ line hline => absurd hline List.not_mem_nil, fun hwords => ?_⟩
    exact absurd rfl (hwords [] List.mem_cons_self)
  | @cons a b text wrapped hab htail ih =>
    obtain ⟨ha, hfree⟩ := List.ne_and_not_mem_of_not_mem_cons hfree
    obtain ⟨htails, hall⟩ := ih hfree
    obtain ⟨word, words, hwords⟩ := List.exists_cons_of_ne_nil (List.splitOn_ne_nil 32 text)
    obtain ⟨line, lines, hlines⟩ := List.exists_cons_of_ne_nil (List.splitOn_ne_nil 10 wrapped)
    rw [hwords, hlines] at htails hall
    rw [List.splitOn_cons_eq_if_modifyHead, List.splitOn_cons_eq_if_modifyHead, hwords, hlines]
    by_cases hspace : a = 32
    · -- an empty word is in front, so that only the other ones count
      rw [if_pos (beq_iff_eq.mpr hspace)]
      refine ⟨fun hne => ?_, fun hne => absurd rfl (hne [] List.mem_cons_self)⟩
      split_ifs
      · exact hall hne
      · exact fun other hother => hall hne other (List.mem_cons_of_mem line hother)
    · obtain rfl : b = a := hab.resolve_right fun h => hspace h.1
      rw [if_neg (by simpa using hspace), if_neg (by simpa using ha.symm)]
      refine ⟨htails, fun hne => ?_⟩
      have hrest := htails fun other hother => hne other (List.mem_cons_of_mem _ hother)
      exact List.forall_mem_cons.mpr ⟨List.cons_ne_nil b line, hrest⟩

/-- Wrapping keeps bytes, or turns spaces into newlines. -/
theorem wrap_kept (text : List UInt8) : List.Forall₂ KeptOrBroken text (wrap text) := by
  obtain ⟨original, done, line, -, h⟩ := wrapTo_wrapping text (Nat.le_refl _)
  rw [List.drop_length] at h
  have hwrap : wrap text = done ++ line := h.wrapped.trans (List.append_nil _)
  rw [hwrap]
  conv_lhs => rw [h.source, List.append_nil]
  exact List.rel_append h.kept (List.forall₂_same.mpr fun _ _ => .inl rfl)

/-- The lines of a wrapped text. -/
theorem Entry.InPlainText.wrapped {entry : Entry} (h : entry.InPlainText) :
    ∀ line ∈ textLines (wrap entry.text), IsLine line ∧ line ≠ [] := by
  have hkept := wrap_kept entry.text
  have hfree : 10 ∉ entry.text := fun hmem => (h.line 10 hmem).1 rfl
  intro line hline
  refine ⟨fun c hc => ?_, (textLines_nonempty hkept hfree).2 h.words line hline⟩
  obtain ⟨hlf, hmem⟩ := mem_textLines hline c hc
  refine ⟨hlf, ?_⟩
  rintro rfl
  -- a carriage return would be one of the text
  obtain ⟨i, hi, hget⟩ := List.mem_iff_getElem.mp hmem
  have hsame := hkept.get (hkept.length_eq ▸ hi) hi
  rw [List.get_eq_getElem, List.get_eq_getElem, hget] at hsame
  rcases hsame with hsame | ⟨-, hsame⟩
  · exact (h.line _ (List.getElem_mem _)).2 hsame.symm
  · exact absurd hsame (by decide)

theorem upperByte_lineEnd (c : UInt8) : (upperByte c = 10 → c = 10) ∧ (upperByte c = 13 → c = 13) :=
  forall_byte (fun c => (upperByte c = 10 → c = 10) ∧ (upperByte c = 13 → c = 13)) (by decide +kernel) c

theorem isLine_map_upperByte {line : List UInt8} (h : IsLine line) : IsLine (line.map upperByte) := by
  intro _ hmem
  obtain ⟨c, hc, rfl⟩ := List.mem_map.mp hmem
  exact ⟨fun h10 => (h c hc).1 ((upperByte_lineEnd c).1 h10),
    fun h13 => (h c hc).2 ((upperByte_lineEnd c).2 h13)⟩

/-- A title and its borders are lines. -/
theorem isLine_boxLines {text : List UInt8} (h : IsLine text) :
    ∀ line ∈ boxLines text, IsLine line ∧ line ≠ [] := by
  have hmark : IsLine (ascii "#") := isLine_of_all rfl
  have hspace : IsLine (ascii " ") := isLine_of_all rfl
  have halternating : ∀ n1 n2, IsLine (alternating 35 35 n1 n2) := by
    intro n1 n2
    refine IsLine.append ?_ fun c hc => ?_
    · rw [if_pos rfl]
      intro c hc
      rw [List.eq_of_mem_replicate hc]
      decide
    · rw [List.eq_of_mem_replicate hc]
      decide
  have hmiddle := (hspace.append (isLine_map_upperByte h)).append hspace
  have hborder := fun n1 n2 => (hmark.append (halternating n1 n2)).append hmark
  intro line hline
  simp only [boxLines, List.mem_cons, List.not_mem_nil, or_false] at hline
  rcases hline with rfl | rfl | rfl
  · exact ⟨hborder _ _, List.cons_ne_nil _ _⟩
  · exact ⟨(hmark.append hmiddle).append hmark, List.cons_ne_nil _ _⟩
  · exact ⟨hborder _ _, List.cons_ne_nil _ _⟩

/-- The lines of an entry are lines that are not empty, and there is one at least. -/
def IsBlock (lines : List (List UInt8)) : Prop := lines ≠ [] ∧ ∀ line ∈ lines, IsLine line ∧ line ≠ []

theorem isBlock_singleton {line : List UInt8} (h : IsLine line) (hne : line ≠ []) : IsBlock [line] :=
  ⟨List.cons_ne_nil line [], fun other hother => by rw [List.mem_singleton.mp hother]; exact ⟨h, hne⟩⟩

section

variable {link : UrlFunction} {languages : LinkLanguages} {entry : Entry}

theorem Entry.InPlainText.resource_isLine (h : entry.InPlainText) : IsLine entry.resource := by
  by_cases hnil : entry.resource = []
  · rw [hnil]
    exact isLine_of_all rfl
  · exact IsUrl.isLine ⟨hnil, h.resource⟩

theorem isBlock_nexEntry (hlink : MakesUrls link) (h : entry.InPlainText) (number : ℕ) :
    IsBlock (nexEntry link languages number entry) := by
  have hreference := (hlink languages entry.language entry.resource h.resource).isLine
  have hspace : IsLine (ascii " ") := isLine_of_all rfl
  have harrow : IsLine (ascii "=> ") := isLine_of_all rfl
  unfold nexEntry
  split
  case h_1 | h_2 => exact ⟨List.splitOn_ne_nil _ _, h.wrapped⟩
  case h_4 =>
    refine isBlock_singleton (((hspace.append (isLine_decimal number)).append (isLine_of_all rfl)).append
      h.line) (by simp [ascii])
  case h_6 | h_7 => exact isBlock_singleton (isLine_map_upperByte h.line) (by simpa using h.nonempty)
  case h_8 | h_9 => exact ⟨List.cons_ne_nil _ _, isLine_boxLines h.line⟩
  case h_10 =>
    exact isBlock_singleton (((harrow.append hreference).append hspace).append h.line) (by simp [ascii])
  case h_11 =>
    exact isBlock_singleton (((harrow.append h.resource_isLine).append hspace).append h.line)
      (by simp [ascii])
  all_goals exact isBlock_singleton (IsLine.append (isLine_of_all rfl) h.line) (by simp [ascii])

theorem isBlock_fingerEntry (hlink : MakesUrls link) (h : entry.InPlainText) (number : ℕ) :
    IsBlock (fingerEntry link languages number entry) := by
  have hreference := (hlink languages entry.language entry.resource h.resource).isLine
  have hspace : IsLine (ascii " ") := isLine_of_all rfl
  have hcolon : IsLine (ascii ": ") := isLine_of_all rfl
  unfold fingerEntry
  split
  case h_1 | h_2 => exact isBlock_singleton h.line h.nonempty
  case h_4 =>
    refine isBlock_singleton (((hspace.append (isLine_decimal number)).append (isLine_of_all rfl)).append
      h.line) (by simp [ascii])
  case h_6 | h_7 => exact isBlock_singleton (isLine_map_upperByte h.line) (by simpa using h.nonempty)
  case h_8 | h_9 => exact ⟨List.cons_ne_nil _ _, isLine_boxLines h.line⟩
  case h_10 => exact isBlock_singleton ((h.line.append hcolon).append hreference) (by simp [h.nonempty])
  case h_11 =>
    exact isBlock_singleton ((h.line.append hcolon).append h.resource_isLine) (by simp [h.nonempty])
  all_goals exact isBlock_singleton (IsLine.append (isLine_of_all rfl) h.line) (by simp [ascii])

end

/-! ## Pages -/

/-- The lines of a page, from a style and a number on. -/
def plainLines (separates : EntryStyle → EntryStyle → Bool)
    (lines : LinkLanguages → ℕ → Entry → List (List UInt8)) (languages : LinkLanguages) :
    EntryStyle → ℕ → List Entry → List (List UInt8)
  | _, _, [] => []
  | previous, number, entry :: rest =>
    (if separates previous entry.style then [[]] else [])
      ++ (lines languages (entryNumber number entry) entry
        ++ plainLines separates lines languages entry.style (entryNumber number entry) rest)

/-- Empty lines stand alone, and neither in front of a page nor behind it. -/
structure Tidy (lines : List (List UInt8)) : Prop where
  alone : lines.IsChain fun a b => a ≠ [] ∨ b ≠ []
  first : lines.head? ≠ some []
  last : lines.getLast? ≠ some []

section

variable {separates : EntryStyle → EntryStyle → Bool}
  {lines : LinkLanguages → ℕ → Entry → List (List UInt8)} {languages : LinkLanguages} {entries : List Entry}

theorem printedBody_plain (endline : List UInt8) (entries : List Entry) (previous : EntryStyle)
    (number : ℕ) : printedBody (plainAdded endline separates lines) languages previous number entries
      = (plainLines separates lines languages previous number entries).flatMap (· ++ endline) := by
  induction entries generalizing previous number with
  | nil => rfl
  | cons entry entries ih =>
    rw [printedBody, plainLines, List.flatMap_append, List.flatMap_append, ih, plainAdded,
      List.flatMap_append, List.append_assoc]

theorem isLine_plainLines (separates : EntryStyle → EntryStyle → Bool)
    (hlines : ∀ entry ∈ entries, ∀ number, IsBlock (lines languages number entry))
    (previous : EntryStyle) (number : ℕ) :
    ∀ line ∈ plainLines separates lines languages previous number entries, IsLine line := by
  induction entries generalizing previous number with
  | nil => exact fun line hline => absurd hline List.not_mem_nil
  | cons entry entries ih =>
    intro line hline
    rcases List.mem_append.mp hline with hline | hline
    · split_ifs at hline
      · rw [List.mem_singleton.mp hline]
        exact isLine_of_all rfl
      · exact absurd hline List.not_mem_nil
    rcases List.mem_append.mp hline with hline | hline
    · exact ((hlines entry List.mem_cons_self _).2 line hline).1
    · exact ih (fun e he => hlines e (List.mem_cons_of_mem entry he)) _ _ line hline

/-- Behind a block, lines in which empty ones stand alone go on. -/
theorem isChain_block {block rest : List (List UInt8)} (hblock : IsBlock block)
    (hrest : rest.IsChain fun a b => a ≠ [] ∨ b ≠ []) :
    (block ++ rest).IsChain fun a b => a ≠ [] ∨ b ≠ [] := by
  refine List.isChain_append.mpr ⟨?_, hrest, fun a ha b _ => .inl ?_⟩
  · exact (List.pairwise_of_forall_mem_list fun a ha b _ => .inl (hblock.2 a ha).2).isChain
  · exact (hblock.2 a (List.mem_of_mem_getLast? ha)).2

/-- Empty lines of a page stand alone, and none ends it. -/
theorem plainLines_alone (hlines : ∀ entry ∈ entries, ∀ number, IsBlock (lines languages number entry))
    (previous : EntryStyle) (number : ℕ) :
    (plainLines separates lines languages previous number entries).IsChain (fun a b => a ≠ [] ∨ b ≠ []) ∧
      (plainLines separates lines languages previous number entries).getLast? ≠ some [] := by
  induction entries generalizing previous number with
  | nil => exact ⟨List.isChain_nil, (Option.some_ne_none []).symm⟩
  | cons entry entries ih =>
    have hblock := hlines entry List.mem_cons_self (entryNumber number entry)
    obtain ⟨hchain, hlast⟩ := ih (fun e he => hlines e (List.mem_cons_of_mem entry he)) entry.style
      (entryNumber number entry)
    obtain ⟨first, block, hcons⟩ := List.exists_cons_of_ne_nil hblock.1
    have hfirst : first ≠ [] := (hblock.2 first (hcons ▸ List.mem_cons_self)).2
    have hrest := isChain_block hblock hchain
    have hend : (lines languages (entryNumber number entry) entry ++ plainLines separates lines languages
        entry.style (entryNumber number entry) entries).getLast? ≠ some [] := by
      rw [List.getLast?_append]
      cases hcase : (plainLines separates lines languages entry.style (entryNumber number entry)
          entries).getLast? with
      | some line =>
        rw [hcase] at hlast
        exact hlast
      | none =>
        intro hnil
        exact (hblock.2 [] (List.mem_of_getLast? hnil)).2 rfl
    rw [plainLines]
    split_ifs
    · refine ⟨?_, ?_⟩
      · rw [hcons] at hrest ⊢
        exact List.isChain_cons_cons.mpr ⟨.inr hfirst, hrest⟩
      · rw [List.singleton_append, List.getLast?_cons_of_ne_nil (by rw [hcons]; exact List.cons_ne_nil _ _)]
        exact hend
    · exact ⟨hrest, hend⟩

/-- The lines of a page are read, and its empty lines stand alone. -/
theorem tidy_plainLines (hlines : ∀ entry ∈ entries, ∀ number, IsBlock (lines languages number entry))
    (hseparates : ∀ style, separates .initial style = false) :
    Tidy (plainLines separates lines languages .initial 0 entries) where
  alone := (plainLines_alone hlines .initial 0).1
  last := (plainLines_alone hlines .initial 0).2
  first := by
    cases entries with
    | nil => exact (Option.some_ne_none []).symm
    | cons entry entries =>
      have hblock := hlines entry List.mem_cons_self (entryNumber 0 entry)
      obtain ⟨first, block, hcons⟩ := List.exists_cons_of_ne_nil hblock.1
      have hfirst : first ≠ [] := (hblock.2 first (hcons ▸ List.mem_cons_self)).2
      rw [plainLines, hseparates, if_neg Bool.false_ne_true, List.nil_append, hcons]
      exact fun h => hfirst (Option.some.inj h)

end

theorem all_slashPath (languages : LinkLanguages) (language : UInt8) {resource : List UInt8}
    (hresource : resource.all isUrlByte = true) :
    (slashPath languages language resource).all isUrlByte = true := by
  have hslash : (if resource = [] then [] else ascii "/").all isUrlByte = true := by split_ifs <;> decide
  simp only [slashPath, LinkLanguages.slash, List.all_append, all_languageSlash, hslash, hresource,
    Bool.and_self]

theorem nexPath_makesUrls : MakesUrls nexPath := by
  intro languages language resource hresource
  refine ⟨by simp [nexPath, ascii], ?_⟩
  rw [nexPath, List.all_append, all_slashPath languages language hresource]
  decide

theorem textUrl_makesUrls (release : Bool) : MakesUrls (textUrl release) := by
  intro languages language resource hresource
  have hport : (textPortString release).all isUrlByte = true := by cases release <;> decide
  refine ⟨by simp [textUrl, ascii], ?_⟩
  simp only [textUrl, List.all_append, all_domainName, hport, all_slashPath languages language hresource]
  decide

theorem fingerUrl_makesUrls (release : Bool) : MakesUrls (fingerUrl release) := by
  intro languages language resource hresource
  have hport : (fingerPortString release).all isUrlByte = true := by cases release <;> decide
  refine ⟨by simp [fingerUrl, ascii], ?_⟩
  simp only [fingerUrl, List.all_append, all_domainName, hport, all_slashPath languages language hresource]
  decide

theorem separates_initial (style : EntryStyle) : separates .initial style = false := by
  rw [separates, decide_eq_false (not_not_intro rfl), Bool.and_false]

/-- In Nex, Text and Finger the lines of a page are those of its entries, with an empty line between two
of which one is a paragraph, and no other. Text leaves it out in front of an internal reference. Nothing
but the allocator keeps a page from being printed. -/
theorem printPage_plain (refusal : Refusal) (release : Bool) {entries : List Entry}
    (hentries : ∀ entry ∈ entries, entry.InPlainText) (context : PrintContext) :
    Yields (printPage (processorPrintNex refusal) context entries)
        (fun page => page.two = [] ∧ Tidy (readLines page.one) ∧
          readLines page.one
            = plainLines separates (nexEntry nexPath) context.languages .initial 0 entries)
        (Refused refusal) ∧
      Yields (printPage (processorPrintText refusal release) context entries)
        (fun page => page.two = [] ∧ ∃ body, page.one = ascii "20 text/plain\r\n" ++ body ∧
          Tidy (readLines body) ∧ readLines body
            = plainLines separatesText (nexEntry (textUrl release)) context.languages .initial 0 entries)
        (Refused refusal) ∧
      Yields (printPage (processorPrintFinger refusal release) context entries)
        (fun page => page.two = [] ∧ Tidy (readLines page.one) ∧
          readLines page.one = plainLines separates (fingerEntry (fingerUrl release)) context.languages
            .initial 0 entries)
        (Refused refusal) := by
  have hone : ∀ {whole one : List UInt8}, Except.ok whole = (.ok one : Except Error (List UInt8)) →
      one = whole := fun h => (Except.ok.inj h).symm
  -- every entry is printed as a block of lines, which is read back line by line
  have hnex : ∀ {link : UrlFunction}, MakesUrls link → ∀ entry ∈ entries, ∀ number,
      IsBlock (nexEntry link context.languages number entry) :=
    fun hlink entry hentry => isBlock_nexEntry hlink (hentries entry hentry)
  have hfinger : ∀ entry ∈ entries, ∀ number,
      IsBlock (fingerEntry (fingerUrl release) context.languages number entry) :=
    fun entry hentry => isBlock_fingerEntry (fingerUrl_makesUrls release) (hentries entry hentry)
  have htext : ∀ style, separatesText .initial style = false := by
    intro style
    rw [separatesText, separates_initial, Bool.and_false]
  refine ⟨?_, ?_, ?_⟩
  · refine ((processorPrintNex_printsBody refusal).printPage entries context).mono ?_
    rintro page ⟨hfinish, htwo⟩
    have hread := readLines_lf (isLine_plainLines separates (hnex nexPath_makesUrls) .initial 0)
    rw [List.nil_append, printedBody_plain] at hfinish
    rw [hone hfinish, show lineFeed = [10] from rfl, hread]
    exact ⟨htwo, tidy_plainLines (hnex nexPath_makesUrls) separates_initial, rfl⟩
  · refine ((processorPrintText_printsBody refusal release).printPage entries context).mono ?_
    rintro page ⟨hfinish, htwo⟩
    have hread := readLines_lf
      (isLine_plainLines separatesText (hnex (textUrl_makesUrls release)) .initial 0)
    rw [printedBody_plain] at hfinish
    refine ⟨htwo, _, hone hfinish, ?_⟩
    rw [show lineFeed = [10] from rfl, hread]
    exact ⟨tidy_plainLines (hnex (textUrl_makesUrls release)) htext, rfl⟩
  · refine ((processorPrintFinger_printsBody refusal release).printPage entries context).mono ?_
    rintro page ⟨hfinish, htwo⟩
    have hread := readLines_crlf (isLine_plainLines separates hfinger .initial 0)
    rw [List.nil_append, printedBody_plain] at hfinish
    rw [hone hfinish, show crlf = [13, 10] from rfl, hread]
    exact ⟨htwo, tidy_plainLines hfinger separates_initial, rfl⟩

/-- A title, a text and a link in Finger. -/
theorem printPage_plain_three :
    Yields (printPage (processorPrintFinger (fun _ => none) true) ⟨[], [], 0, false, .initial, 0, 101, 0⟩
        [⟨.header, 101, [], ascii "Nex", by decide⟩, ⟨.normal, 101, [], ascii "a text", by decide⟩,
          ⟨.internalReference, 100, ascii "about", ascii "About me", by decide⟩])
      (fun page => page.two = [] ∧ Tidy (readLines page.one) ∧
        readLines page.one = [ascii "#######", ascii "# NEX #",
          ascii "#######", [], ascii "a text",
          ascii "About me: finger://my8bitsoul.eu/about/de"])
      (Refused fun _ => none) := by
  refine (printPage_plain (fun _ => none) true ?_ _).2.2.mono fun page ⟨htwo, htidy, hread⟩ =>
    ⟨htwo, htidy, hread.trans (by decide)⟩
  intro entry hentry
  simp only [List.mem_cons, List.not_mem_nil, or_false] at hentry
  rcases hentry with rfl | rfl | rfl <;> exact ⟨isLine_of_all (by decide), by decide, by decide⟩

/-! ## Boxes -/

/-- The symbols of a line: continuation bytes show none of their own. -/
def glyphs (line : List UInt8) : ℕ := line.countP (!isContinuation ·)

theorem glyphs_append (a b : List UInt8) : glyphs (a ++ b) = glyphs a + glyphs b := List.countP_append

theorem glyphs_add (line : List UInt8) : glyphs line + line.countP isContinuation = line.length := by
  rw [Nat.add_comm, List.length_eq_countP_add_countP isContinuation, glyphs]
  simp only [Bool.not_eq_true, Bool.decide_eq_false]

theorem glyphs_eq_length {line : List UInt8} (h : ∀ c ∈ line, isContinuation c = false) :
    glyphs line = line.length := by
  have hadd := glyphs_add line
  rwa [List.countP_eq_zero.mpr fun c hc => by rw [h c hc]; exact Bool.false_ne_true, Nat.add_zero] at hadd

theorem countP_map_upperByte (text : List UInt8) :
    (text.map upperByte).countP isContinuation = text.countP isContinuation := by
  rw [List.countP_map]
  refine List.countP_congr fun c _ => ?_
  exact forall_byte (fun c => (isContinuation ∘ upperByte) c = true ↔ isContinuation c = true)
    (by decide +kernel) c

theorem alternating_ascii {c1 c2 : UInt8} (h1 : isContinuation c1 = false) (h2 : isContinuation c2 = false)
    (n1 n2 : ℕ) : ∀ c ∈ alternating c1 c2 n1 n2, isContinuation c = false := by
  intro c hc
  rcases List.mem_append.mp hc with hc | hc
  · split_ifs at hc
    · rwa [List.eq_of_mem_replicate hc]
    · obtain ⟨i, -, rfl⟩ := List.mem_map.mp hc
      split_ifs
      · exact h1
      · exact h2
  · rw [List.eq_of_mem_replicate hc]
    decide

/-- Borders are as wide as the title between them unless the title has letters of several bytes: the
spaces that make up for them stand inside of the border. -/
theorem boxLines_aligned (text : List UInt8) : ∃ border title, boxLines text = [border, title, border] ∧
    (glyphs border = glyphs title ↔ ∀ c ∈ text, isContinuation c = false) := by
  refine ⟨_, _, rfl, ?_⟩
  have hmiddle : (ascii " " ++ text.map upperByte ++ ascii " ").countP isContinuation
      = text.countP isContinuation := by
    have hspace : (ascii " ").countP isContinuation = 0 := by decide
    rw [List.countP_append, List.countP_append, hspace, countP_map_upperByte, Nat.zero_add, Nat.add_zero]
  generalize ascii " " ++ text.map upperByte ++ ascii " " = middle at hmiddle ⊢
  -- a border has a glyph for every byte of the middle
  have hborder : glyphs (alternating 35 35 (middle.length - middle.countP isContinuation) middle.length)
      = middle.length := by
    rw [glyphs_eq_length (alternating_ascii rfl rfl _ _), length_alternating _ _ (Nat.sub_le _ _)]
  have hadd := glyphs_add middle
  rw [hmiddle] at hadd
  rw [glyphs_append, glyphs_append, glyphs_append, glyphs_append, hborder]
  have hiff : glyphs (ascii "#") + middle.length + glyphs (ascii "#")
        = glyphs (ascii "#") + glyphs middle + glyphs (ascii "#") ↔ text.countP isContinuation = 0 := by
    omega
  rw [hiff, List.countP_eq_zero]
  simp only [Bool.not_eq_true]

/-- A border of Gopher is as wide as its title: the spaces stand behind it. -/
theorem alternating_visible {c1 c2 : UInt8} (hne : c1 ≠ c2) (h1 : c1 ≠ 32) (h2 : c2 ≠ 32) (n1 n2 : ℕ) :
    ((alternating c1 c2 n1 n2).rdropWhile (· == 32)).length = n1 := by
  have hspaces : (List.replicate (n2 - n1) (32 : UInt8)).rdropWhile (· == 32) = [] :=
    List.rdropWhile_eq_nil_iff.mpr fun c hc => beq_iff_eq.mpr (List.eq_of_mem_replicate hc)
  rw [alternating, if_neg hne, rdropWhile_append, if_pos hspaces, List.rdropWhile_eq_self_iff.mpr,
    List.length_map, List.length_range]
  intro hnil
  have hmem := List.getLast_mem hnil
  obtain ⟨i, -, hget⟩ := List.mem_map.mp hmem
  rw [← hget, beq_iff_eq]
  split_ifs
  · exact h1
  · exact h2

/-- A title of Gopher between borders that show as many glyphs as it has. -/
def GopherBox (old one : List UInt8) : Prop :=
  ∃ border title, one = old ++ ((ascii "i" ++ border ++ fakeEndline) ++ (ascii "i" ++ title ++ fakeEndline)
      ++ (ascii "i" ++ border ++ fakeEndline)) ∧
    glyphs (border.rdropWhile (· == 32)) = glyphs title

/-- A title of Nex, Text and Finger between borders of one width. -/
def PlainBox (endline old one : List UInt8) (aligned : Prop) : Prop :=
  ∃ border title, one = old ++ ((border ++ endline) ++ (title ++ endline) ++ (border ++ endline)) ∧
    (glyphs border = glyphs title ↔ aligned)

theorem processorPrintGopher_box (refusal : Refusal) (release : Bool) (context : PrintContext)
    {style : EntryStyle} (hstyle : style = .largest ∨ style = .header) (resource text : List UInt8) :
    Yields (processorPrintGopher refusal release context style resource text)
      (fun printed => ∃ separator, GopherBox (context.one ++ separator) printed.one) (Refused refusal) := by
  have hcontent : style ≠ .final := by rcases hstyle with rfl | rfl <;> decide
  refine (appendSeparator_yields refusal (ascii "i" ++ fakeEndline) context hcontent).bind ?_
  rintro _ rfl
  generalize (if separates context.previousStyle style then ascii "i" ++ fakeEndline else []) = separator
  have hbox := titleBox_yields refusal (context.one ++ separator) (ascii "i") (ascii "O ") text (ascii " O")
    fakeEndline 79 48
  have hline : Yields _ (GopherBox (context.one ++ separator)) _ := hbox.mono fun one hone => by
    refine ⟨_, _, hone, ?_⟩
    rw [countP_marked (by decide) (by decide), glyphs_eq_length]
    · rw [alternating_visible (by decide) (by decide) (by decide)]
      have hadd := glyphs_add (ascii "O " ++ text.map upperByte ++ ascii " O")
      omega
    · intro c hc
      have hmem := (List.rdropWhile_prefix (· == 32) _).subset hc
      exact alternating_ascii (by decide) (by decide) _ _ c hmem
  have hflatten : [ascii "iO ", text].flatten = ascii "i" ++ ascii "O " ++ text := by simp [ascii]
  rcases hstyle with rfl | rfl
  all_goals
    refine (appendTexts_yields refusal _ [ascii "iO ", text]).bind ?_
    rintro _ rfl
    rw [hflatten]
    exact hline.map fun one h => ⟨separator, h⟩

/-- A title that a printer appends as a box. -/
theorem PrintsBody.box {print : PrintFunction} {status endline : List UInt8}
    {finish : List UInt8 → Except Error (List UInt8)} {refused : Error → Prop}
    {lines : LinkLanguages → ℕ → Entry → List (List UInt8)} {separates : EntryStyle → EntryStyle → Bool}
    (h : PrintsBody print status finish (plainAdded endline separates lines) refused) {entry : Entry}
    (hlines : ∀ languages number, lines languages number entry = boxLines entry.text)
    (context : PrintContext) (hlanguage : context.language = entry.language) :
    Yields (print context entry.style entry.resource entry.text)
      (fun printed => ∃ separator, PlainBox endline (context.one ++ separator) printed.one
        (∀ c ∈ entry.text, isContinuation c = false)) refused := by
  refine (h.entry context entry hlanguage).mono ?_
  rintro _ rfl
  obtain ⟨border, title, hbox, haligned⟩ := boxLines_aligned entry.text
  refine ⟨if separates context.previousStyle entry.style then endline else [], border, title, ?_, haligned⟩
  rw [plainAdded_eq, hlines, hbox]
  simp only [List.flatMap_cons, List.flatMap_nil, List.append_nil, List.append_assoc]

/-- The box around a title is as wide as the title in Gopher, whatever the title is. In Nex, Text and
Finger it is if and only if the title has no letters of several bytes. -/
theorem processorPrint_box (refusal : Refusal) (release : Bool) (context : PrintContext) (entry : Entry)
    (hstyle : entry.style = .largest ∨ entry.style = .header)
    (hlanguage : context.language = entry.language) :
    Yields (processorPrintGopher refusal release context entry.style entry.resource entry.text)
        (fun printed => ∃ separator, GopherBox (context.one ++ separator) printed.one) (Refused refusal) ∧
      Yields (processorPrintNex refusal context entry.style entry.resource entry.text)
        (fun printed => ∃ separator, PlainBox lineFeed (context.one ++ separator) printed.one
          (∀ c ∈ entry.text, isContinuation c = false)) (Refused refusal) ∧
      Yields (processorPrintText refusal release context entry.style entry.resource entry.text)
        (fun printed => ∃ separator, PlainBox lineFeed (context.one ++ separator) printed.one
          (∀ c ∈ entry.text, isContinuation c = false)) (Refused refusal) ∧
      Yields (processorPrintFinger refusal release context entry.style entry.resource entry.text)
        (fun printed => ∃ separator, PlainBox crlf (context.one ++ separator) printed.one
          (∀ c ∈ entry.text, isContinuation c = false)) (Refused refusal) := by
  have hnex : ∀ link languages number, nexEntry link languages number entry = boxLines entry.text := by
    intro link languages number
    unfold nexEntry
    rcases hstyle with h | h <;> rw [h]
  have hfinger : ∀ languages number,
      fingerEntry (fingerUrl release) languages number entry = boxLines entry.text := by
    intro languages number
    unfold fingerEntry
    rcases hstyle with h | h <;> rw [h]
  exact ⟨processorPrintGopher_box refusal release context hstyle entry.resource entry.text,
    (processorPrintNex_printsBody refusal).box (hnex nexPath) context hlanguage,
    (processorPrintText_printsBody refusal release).box (hnex (textUrl release)) context hlanguage,
    (processorPrintFinger_printsBody refusal release).box hfinger context hlanguage⟩

/-- The title of the German page about the author, which has a letter of two bytes. -/
theorem processorPrint_box_umlaut :
    Yields (processorPrintNex (fun _ => none) ⟨[], [], 0, false, .initial, 0, 100, 0⟩ .header []
        ([195, 156] ++ ascii "ber mich"))
      (fun printed => ∃ old border title, printed.one = old
        ++ ((border ++ [10]) ++ (title ++ [10]) ++ (border ++ [10])) ∧ glyphs border ≠ glyphs title)
      (Refused fun _ => none) := by
  refine (processorPrint_box (fun _ => none) true ⟨[], [], 0, false, .initial, 0, 100, 0⟩
    ⟨.header, 100, [], [195, 156] ++ ascii "ber mich", by decide⟩ (.inr rfl) rfl).2.1.mono ?_
  rintro printed ⟨separator, border, title, hone, haligned⟩
  refine ⟨_, border, title, hone, fun heq => ?_⟩
  -- the second byte of the umlaut
  have hplain := haligned.mp heq 156 (List.mem_cons_of_mem _ List.mem_cons_self)
  exact absurd hplain (by decide)

end Twinkleshine
