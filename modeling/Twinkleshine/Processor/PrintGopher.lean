import Mathlib.Data.List.Chain
import Twinkleshine.Memory
import Twinkleshine.Processor.Print
import Twinkleshine.Processor.UpperCase

/-!
# Printing menus

Reference: `processor_print_gopher` in `source/processor/gopher_processor.c`, `processor_generic_box` and
`memset_alternating` in `source/processor/generic.c`.

Entries become items of a Gopher menu. Entries that are not references get a selector, a host and a port
that stand for none: `FAKE`, which ends its line. `FAKE_ENDLINE` ends it again.
-/

namespace Twinkleshine

open Library

/-! ## Boxes -/

/-- What `memset_alternating` writes. -/
def alternating (c1 c2 : UInt8) (n1 n2 : ℕ) : List UInt8 :=
  (if c1 = c2 then List.replicate n1 c1
    -- Lagrange can't handle long sequences of equal symbols
    else (List.range n1).map fun i => if i &&& 1 ≠ 0 then c1 else c2)
  ++ List.replicate (n2 - n1) 32

/-- `(*p & 0xC0) == 0x80` -/
def isContinuation (c : UInt8) : Bool := c &&& 0xC0 == 0x80

/-- `processor_generic_box`, on the text of the string. -/
def processorGenericBox (refusal : Refusal) (text : List UInt8)
    (oldStringSize prefixSize suffixSize : ℕ) (c1 c2 : UInt8) : Except Error (List UInt8) :=
  let fullLineSize := text.length - oldStringSize
  let lineSize := fullLineSize - prefixSize - suffixSize
  let line := (text.drop oldStringSize).take fullLineSize
  let lineSizeGlyphs := lineSize - line.countP isContinuation
  (appendText refusal text (List.replicate (2 * fullLineSize) 0)).map fun text =>
  let text := memcpy text (oldStringSize + fullLineSize) line
  let text := memcpy text (oldStringSize + fullLineSize * 2) line
  let border := alternating c1 c2 lineSizeGlyphs lineSize
  let text := memcpy text (oldStringSize + prefixSize) border
  memcpy text (oldStringSize + fullLineSize * 2 + prefixSize) border

/-! ## Printing -/

/-- `DOMAIN_NAME`, by `TWINKLESHINE_RELEASE` -/
def domainName (release : Bool) : List UInt8 :=
  if release then ascii "my8bitsoul.eu" else ascii "localhost"

/-- `STRINGIZE(GOPHER_PORT)`, by `TWINKLESHINE_RELEASE` -/
def gopherPort (release : Bool) : List UInt8 := if release then ascii "70" else ascii "8070"

/-- Prefix -/
def prefixGopher (style : EntryStyle) (listIndex : ℕ) : List UInt8 :=
  match style with
  | .itemize => ascii "i - "
  | .enumeration => ascii "i " ++ decimal listIndex ++ ascii ". "
  | .quote => ascii "i > "
  | .largest | .header => ascii "iO "
  | .internalReference => ascii "1"
  | _ => ascii "i"

/-- `processor_print_gopher` -/
def processorPrintGopher (refusal : Refusal) (release : Bool) : PrintFunction :=
  fun context style resource text =>
  -- pre-prefix
  (if (processorGenericParagraph style || processorGenericParagraph context.previousStyle) ∧
      style ≠ .final ∧ context.previousStyle ≠ .initial then
    appendText refusal context.one (ascii "i" ++ fakeEndline)
  else .ok context.one).bind fun one =>
  let oldSize := one.length
  match style with
  | .initial => .ok { context with one := [], two := [] }
  | .final => .ok { context with one }
  | style =>
    (appendTexts refusal one [prefixGopher style context.listIndex, text]).bind fun one =>
    (match style with
      | .large | .larger =>
        (appendText refusal one fakeEndline).map fun one =>
        processorGenericUpperCase one oldSize (ascii "i").length fakeEndline.length
      | .largest | .header =>
        (appendText refusal one (ascii " O" ++ fakeEndline)).bind fun one =>
        let one := processorGenericUpperCase one oldSize (ascii "iO ").length
          (ascii " O" ++ fakeEndline).length
        processorGenericBox refusal one oldSize (ascii "i").length fakeEndline.length 79 48
      | .internalReference =>
        appendText refusal one (ascii "\t" ++ resource ++ languageSlash context.language
          context.requestedLanguage context.requestLanguage ++ ascii "\t" ++ domainName release
          ++ ascii "\t" ++ gopherPort release ++ crlf)
      | .externalReference => appendText refusal one (ascii ": " ++ resource ++ fakeEndline)
      | _ => appendText refusal one fakeEndline).map fun one =>
    { context with one }

/-! ## Menus -/

/-- A byte that ends a field of a menu. -/
def isSeparator (c : UInt8) : Bool := c == 9 || c == 10 || c == 13

/-- An item of a Gopher menu. -/
structure MenuItem where
  kind : UInt8
  display : List UInt8
  selector : List UInt8
  host : List UInt8
  port : List UInt8
  plain : ∀ c ∈ kind :: (display ++ selector ++ host ++ port), isSeparator c = false

/-- The line of an item. -/
def MenuItem.line (item : MenuItem) : List UInt8 :=
  item.kind :: (item.display ++ [9] ++ item.selector ++ [9] ++ item.host ++ [9] ++ item.port) ++ crlf

/-- A text that consists of the lines of items. -/
def IsMenu (text : List UInt8) : Prop := ∃ items : List MenuItem, text = items.flatMap MenuItem.line

/-! ## What is printed -/

section

variable {refusal : Refusal}

theorem length_alternating (c1 c2 : UInt8) {n1 n2 : ℕ} (h : n1 ≤ n2) :
    (alternating c1 c2 n1 n2).length = n2 := by
  unfold alternating
  rw [List.length_append, List.length_replicate]
  split_ifs
  · rw [List.length_replicate]
    omega
  · rw [List.length_map, List.length_range]
    omega

theorem memcpy_middle {a m b bs : List UInt8} {i : ℕ} (hi : i = a.length)
    (h : bs.length = m.length) : memcpy (a ++ (m ++ b)) i bs = a ++ (bs ++ b) := by
  rw [hi, memcpy, overwrite_middle h]

/-- A line is put between two borders: as many symbols as it has glyphs, up to its size in bytes. -/
theorem processorGenericBox_border {old front middle back result : List UInt8} {c1 c2 : UInt8}
    (h : processorGenericBox refusal (old ++ (front ++ middle ++ back)) old.length front.length back.length
      c1 c2 = .ok result) :
    let border := alternating c1 c2 (middle.length - (front ++ middle ++ back).countP isContinuation)
      middle.length
    result = old ++ ((front ++ border ++ back) ++ (front ++ middle ++ back) ++ (front ++ border ++ back)) := by
  obtain ⟨text, htext, rfl⟩ := map_eq_ok.mp h
  have htext := appendText_eq htext
  have hfull : (old ++ (front ++ middle ++ back)).length - old.length
      = (front ++ middle ++ back).length := by
    rw [List.length_append, Nat.add_sub_cancel_left]
  have hsize : (front ++ middle ++ back).length - front.length - back.length = middle.length := by
    simp only [List.length_append]
    omega
  rw [hfull] at htext ⊢
  rw [List.drop_left, List.take_length, hsize, htext]
  generalize hborder : alternating c1 c2 (middle.length - (front ++ middle ++ back).countP isContinuation)
    middle.length = border
  have hlength : border.length = middle.length := by
    rw [← hborder, length_alternating _ _ (Nat.sub_le _ _)]
  generalize hline : front ++ middle ++ back = line
  have hzeros : List.replicate (2 * line.length) (0 : UInt8)
      = List.replicate line.length 0 ++ List.replicate line.length 0 := by
    rw [List.replicate_append_replicate, Nat.two_mul]
  -- two copies of the line are appended
  have hfirst : memcpy (old ++ line ++ List.replicate (2 * line.length) 0) (old.length + line.length) line
      = old ++ line ++ (line ++ List.replicate line.length 0) := by
    rw [hzeros]
    exact memcpy_middle (by rw [List.length_append]) (by rw [List.length_replicate])
  have hsecond : memcpy (old ++ line ++ (line ++ List.replicate line.length 0))
      (old.length + line.length * 2) line = old ++ line ++ line ++ (line ++ []) := by
    rw [← List.append_assoc (old ++ line), ← List.append_nil (List.replicate _ _)]
    exact memcpy_middle (by simp only [List.length_append]; omega) (by rw [List.length_replicate])
  -- and the middle of the first line and of the last one become the borders
  have hthird : memcpy (old ++ line ++ line ++ (line ++ [])) (old.length + front.length) border
      = old ++ front ++ (border ++ (back ++ line ++ line)) := by
    have hshape : old ++ line ++ line ++ (line ++ [])
        = old ++ front ++ (middle ++ (back ++ line ++ line)) := by
      nth_rewrite 1 [← hline]
      simp only [List.append_assoc, List.append_nil]
    rw [hshape]
    exact memcpy_middle (by rw [List.length_append]) hlength
  have hfourth : memcpy (old ++ front ++ (border ++ (back ++ line ++ line)))
      (old.length + line.length * 2 + front.length) border
      = old ++ ((front ++ border ++ back) ++ line ++ (front ++ border ++ back)) := by
    have hshape : old ++ front ++ (border ++ (back ++ line ++ line))
        = (old ++ (front ++ border ++ back) ++ line ++ front) ++ (middle ++ back) := by
      nth_rewrite 2 [← hline]
      simp only [List.append_assoc]
    rw [hshape, memcpy_middle _ hlength]
    · simp only [List.append_assoc]
    · rw [← hline]
      simp only [List.length_append, hlength]
      omega
  rw [hfirst]
  dsimp only
  rw [hsecond, hthird, hfourth]

theorem processorGenericBox_eq {old front middle back result : List UInt8} {c1 c2 : UInt8}
    (h : processorGenericBox refusal (old ++ (front ++ middle ++ back)) old.length front.length back.length
      c1 c2 = .ok result) :
    ∃ border : List UInt8, result = old ++ ((front ++ border ++ back) ++ (front ++ middle ++ back)
      ++ (front ++ border ++ back)) :=
  ⟨_, processorGenericBox_border h⟩

/-- The end of an item that is followed by an empty line. -/
def emptyLine : List UInt8 := crlf ++ crlf

/-- The line of an internal reference. -/
def referenceLine (release : Bool) (languages : LinkLanguages) (entry : Entry) : List UInt8 :=
  ascii "1" ++ entry.text ++ (ascii "\t" ++ entry.resource ++ languageSlash entry.language
    languages.requestedLanguage languages.requestLanguage ++ ascii "\t" ++ domainName release
    ++ ascii "\t" ++ gopherPort release ++ crlf)

theorem emptyLine_suffix_append {added : List UInt8} (h : emptyLine <:+ added) (front : List UInt8) :
    emptyLine <:+ front ++ added := h.trans (List.suffix_append front added)

theorem emptyLine_suffix_fakeEndline : emptyLine <:+ fakeEndline :=
  ⟨ascii "\tfake\t(NULL)\t0", rfl⟩

theorem emptyLine_suffix_append_fakeEndline (front : List UInt8) : emptyLine <:+ front ++ fakeEndline :=
  emptyLine_suffix_append emptyLine_suffix_fakeEndline front

/-- What stands in front of an entry. Nothing does in front of an internal reference that does not follow a
paragraph. -/
theorem prePrefix_eq {style : EntryStyle} {context : PrintContext} {one : List UInt8}
    (h : (if (processorGenericParagraph style || processorGenericParagraph context.previousStyle) ∧
        style ≠ .final ∧ context.previousStyle ≠ .initial then
      appendText refusal context.one (ascii "i" ++ fakeEndline)
      else .ok context.one) = .ok one) :
    ∃ separator, one = context.one ++ separator ∧
      (style = .internalReference → processorGenericParagraph context.previousStyle = false →
        separator = []) := by
  split_ifs at h with hparagraph
  · refine ⟨_, appendText_eq h, fun hstyle hprevious => ?_⟩
    rw [hstyle, hprevious] at hparagraph
    exact absurd hparagraph.1 (by decide)
  · cases h
    exact ⟨[], (List.append_nil _).symm, fun _ _ => rfl⟩

/-- The prefix, the text and the end of an item are written one after another. -/
theorem item_eq {old front text back one ended : List UInt8}
    (hone : appendTexts refusal old [front, text] = .ok one)
    (hended : appendText refusal one back = .ok ended) : ended = old ++ front ++ text ++ back := by
  rw [appendText_eq hended, appendTexts_eq hone]
  simp only [List.flatten_cons, List.flatten_nil, List.append_nil, List.append_assoc]

/-- A text in capitals is followed by an empty line. -/
theorem capitals_ends (old text : List UInt8) :
    ∃ rest, processorGenericUpperCase (old ++ ascii "i" ++ text ++ fakeEndline) old.length
        (ascii "i").length fakeEndline.length = old ++ rest ∧ emptyLine <:+ rest := by
  refine ⟨ascii "i" ++ text.map upperByte ++ fakeEndline, ?_, emptyLine_suffix_append_fakeEndline _⟩
  rw [processorGenericUpperCase_eq List.length_append]
  simp only [List.append_assoc]

/-- A heading in its box is followed by an empty line. -/
theorem box_ends {old text result : List UInt8}
    (h : processorGenericBox refusal (processorGenericUpperCase
        (old ++ ascii "iO " ++ text ++ (ascii " O" ++ fakeEndline)) old.length (ascii "iO ").length
        (ascii " O" ++ fakeEndline).length) old.length (ascii "i").length fakeEndline.length 79 48
      = .ok result) : ∃ rest, result = old ++ rest ∧ emptyLine <:+ rest := by
  -- the box surrounds all that stands behind the kind of the item
  have hupper : processorGenericUpperCase (old ++ ascii "iO " ++ text ++ (ascii " O" ++ fakeEndline))
        old.length (ascii "iO ").length (ascii " O" ++ fakeEndline).length
      = old ++ (ascii "i" ++ (ascii "O " ++ text.map upperByte ++ ascii " O") ++ fakeEndline) := by
    have hfront : ascii "iO " = ascii "i" ++ ascii "O " := rfl
    rw [processorGenericUpperCase_eq List.length_append, hfront]
    simp only [List.append_assoc]
  rw [hupper] at h
  obtain ⟨border, hborder⟩ := processorGenericBox_eq h
  refine ⟨_, hborder, ?_⟩
  -- the lower border is the last line
  rw [← List.append_assoc, ← List.append_assoc]
  exact emptyLine_suffix_append_fakeEndline _

/-- Behind the separator, an entry other than an internal reference ends with an empty line. -/
theorem processorPrintGopher_entry {release : Bool} {context printed : PrintContext} (entry : Entry)
    (hlanguage : context.language = entry.language)
    (h : processorPrintGopher refusal release context entry.style entry.resource entry.text
      = .ok printed) :
    ∃ added, printed = { context with one := context.one ++ added } ∧
      (entry.style ≠ .internalReference → emptyLine <:+ added) ∧
      (entry.style = .internalReference → processorGenericParagraph context.previousStyle = false →
        added = referenceLine release context.languages entry) := by
  obtain ⟨one, hseparator, h⟩ := bind_eq_ok.mp h
  obtain ⟨separator, rfl, hnone⟩ := prePrefix_eq hseparator
  -- an item that ends with an empty line is all that is asked for, but of a reference
  have hitem : ∀ rest, emptyLine <:+ rest → entry.style ≠ .internalReference →
      ∃ added, { context with one := context.one ++ separator ++ rest }
          = { context with one := context.one ++ added } ∧
        (entry.style ≠ .internalReference → emptyLine <:+ added) ∧
        (entry.style = .internalReference → processorGenericParagraph context.previousStyle = false →
          added = referenceLine release context.languages entry) := by
    intro rest hrest hne
    refine ⟨separator ++ rest, ?_, fun _ => emptyLine_suffix_append hrest _, fun h => absurd h hne⟩
    rw [List.append_assoc]
  obtain ⟨hinitial, hfinal⟩ := entry.content
  generalize hstyle : entry.style = style at h hinitial hfinal
  rw [hstyle] at hnone hitem
  cases style with
  | initial => exact absurd rfl hinitial
  | final => exact absurd rfl hfinal
  | large | larger =>
    obtain ⟨one, hone, h⟩ := bind_eq_ok.mp h
    obtain ⟨whole, hwhole, rfl⟩ := map_eq_ok.mp h
    obtain ⟨ended, hended, rfl⟩ := map_eq_ok.mp hwhole
    have hended : ended = context.one ++ separator ++ ascii "i" ++ entry.text ++ fakeEndline :=
      item_eq hone hended
    obtain ⟨rest, hrest, hends⟩ := capitals_ends (context.one ++ separator) entry.text
    rw [hended, hrest]
    exact hitem rest hends (by decide)
  | largest | header =>
    obtain ⟨one, hone, h⟩ := bind_eq_ok.mp h
    obtain ⟨whole, hwhole, rfl⟩ := map_eq_ok.mp h
    obtain ⟨ended, hended, hbox⟩ := bind_eq_ok.mp hwhole
    have hended : ended = context.one ++ separator ++ ascii "iO " ++ entry.text
        ++ (ascii " O" ++ fakeEndline) := item_eq hone hended
    rw [hended] at hbox
    obtain ⟨rest, rfl, hends⟩ := box_ends hbox
    exact hitem rest hends (by decide)
  | internalReference =>
    -- a real item, which names a selector, the host and the port
    obtain ⟨one, hone, h⟩ := bind_eq_ok.mp h
    obtain ⟨whole, hwhole, rfl⟩ := map_eq_ok.mp h
    refine ⟨separator ++ referenceLine release context.languages entry, ?_, fun h => absurd rfl h,
      fun _ hprevious => ?_⟩
    · rw [item_eq hone hwhole, referenceLine, hlanguage]
      simp [prefixGopher, PrintContext.languages, List.append_assoc]
    · rw [hnone rfl hprevious, List.nil_append]
  | externalReference =>
    -- the address stands in the text that is displayed
    obtain ⟨one, hone, h⟩ := bind_eq_ok.mp h
    obtain ⟨whole, hwhole, rfl⟩ := map_eq_ok.mp h
    rw [item_eq hone hwhole, List.append_assoc, List.append_assoc]
    refine hitem _ ?_ (by decide)
    rw [← List.append_assoc, ← List.append_assoc]
    exact emptyLine_suffix_append_fakeEndline _
  | _ =>
    obtain ⟨one, hone, h⟩ := bind_eq_ok.mp h
    obtain ⟨whole, hwhole, rfl⟩ := map_eq_ok.mp h
    rw [item_eq hone hwhole, List.append_assoc, List.append_assoc]
    refine hitem _ ?_ (by decide)
    rw [← List.append_assoc]
    exact emptyLine_suffix_append_fakeEndline _

theorem printEntries_gopher {release : Bool} {context printed : PrintContext} {entries : List Entry}
    (h : printEntries (processorPrintGopher refusal release) context entries = .ok printed) :
    ∃ added, printed.one = context.one ++ added ∧
      ((∃ entry ∈ entries, entry.style ≠ .internalReference) → emptyLine <:+: added) ∧
      ((∀ entry ∈ entries, entry.style = .internalReference) →
        processorGenericParagraph context.previousStyle = false →
        added = entries.flatMap (referenceLine release context.languages)) := by
  induction entries generalizing context with
  | nil =>
    cases h
    exact ⟨[], (List.append_nil _).symm, fun ⟨_, hentry, _⟩ => absurd hentry (by simp), fun _ _ => rfl⟩
  | cons entry entries ih =>
    obtain ⟨next, hnext, hrest⟩ := foldlM_cons_eq_ok.mp h
    obtain ⟨listIndex, middle, hmiddle, rfl⟩ := processorPrint_ok hnext
    obtain ⟨first, hfirst, hother, hreference⟩ := processorPrintGopher_entry entry rfl hmiddle
    obtain ⟨rest, hone, hempty, hreferences⟩ := ih hrest
    subst hfirst
    refine ⟨first ++ rest, ?_, ?_, ?_⟩
    · rw [hone, ← List.append_assoc]
    · rintro ⟨e, he, hstyle⟩
      rcases List.mem_cons.mp he with rfl | he
      · exact (hother hstyle).isInfix.trans (List.prefix_append first rest).isInfix
      · exact (hempty ⟨e, he, hstyle⟩).trans (List.suffix_append first rest).isInfix
    · intro hall hprevious
      have hstyle := hall entry List.mem_cons_self
      have hkeep : processorGenericParagraph entry.style = false := by
        rw [hstyle]
        rfl
      rw [List.flatMap_cons, hreference hstyle hprevious,
        hreferences (fun e he => hall e (List.mem_cons_of_mem _ he)) hkeep]
      rfl

/-- A page with an entry other than an internal reference has an empty line; the others consist of the
lines of their entries. -/
theorem printPage_gopher {release : Bool} {context page : PrintContext} {entries : List Entry}
    (h : printPage (processorPrintGopher refusal release) context entries = .ok page) :
    ((∃ entry ∈ entries, entry.style ≠ .internalReference) → emptyLine <:+: page.one) ∧
      ((∀ entry ∈ entries, entry.style = .internalReference) →
        page.one = entries.flatMap (referenceLine release context.languages)) := by
  obtain ⟨first, last, hfirst, hlast, hpage⟩ := printPage_ok h
  obtain ⟨listIndex, begun, hbegun, rfl⟩ := processorPrint_ok hfirst
  obtain ⟨one, -, hbegun⟩ := bind_eq_ok.mp hbegun
  cases hbegun
  obtain ⟨added, hone, hempty, hreferences⟩ := printEntries_gopher hlast
  obtain ⟨listIndex', ended, hended, rfl⟩ := processorPrint_ok hpage
  obtain ⟨whole, hwhole, hended⟩ := bind_eq_ok.mp hended
  cases hended
  rw [if_neg (fun h => h.2.1 rfl)] at hwhole
  cases hwhole
  exact ⟨fun hother => hone ▸ hempty hother, fun hall => hone.trans (hreferences hall rfl)⟩

end

/-! ## What is a menu -/

theorem isSeparator_iff {c : UInt8} : isSeparator c = false ↔ c ≠ 9 ∧ c ≠ 10 ∧ c ≠ 13 := by
  simp [isSeparator, and_assoc]

/-- A line without its newline has none. -/
theorem MenuItem.front_line (item : MenuItem) :
    ∃ front, item.line = front ++ [10] ∧ ∀ c ∈ front, c ≠ 10 := by
  refine ⟨item.kind :: (item.display ++ [9] ++ item.selector ++ [9] ++ item.host ++ [9] ++ item.port)
    ++ [13], ?_, ?_⟩
  · rw [MenuItem.line, show crlf = [13] ++ [10] from rfl, ← List.append_assoc]
  · have hplain : ∀ c ∈ item.kind :: (item.display ++ item.selector ++ item.host ++ item.port), c ≠ 10 :=
      fun c hc => (isSeparator_iff.mp (item.plain c hc)).2.1
    intro c hc
    simp only [List.mem_append, List.mem_cons, List.not_mem_nil, or_false] at hc hplain
    rcases hc with (hc | (((((hc | rfl) | hc) | rfl) | hc) | rfl) | hc) | rfl
    · exact hplain c (.inl hc)
    · exact hplain c (.inr (.inl (.inl (.inl hc))))
    · decide
    · exact hplain c (.inr (.inl (.inl (.inr hc))))
    · decide
    · exact hplain c (.inr (.inl (.inr hc)))
    · decide
    · exact hplain c (.inr (.inr hc))
    · decide

/-- A text with a newline at its end only has none in front of a carriage return. -/
theorem isChain_of_front {front : List UInt8} (h : ∀ c ∈ front, c ≠ 10) :
    (front ++ [10]).IsChain fun a b => ¬ (a = 10 ∧ b = 13) := by
  induction front with
  | nil => exact List.isChain_singleton 10
  | cons c front ih =>
    have hc := h c List.mem_cons_self
    exact List.isChain_cons.mpr
      ⟨fun b _ hb => hc hb.1, ih fun d hd => h d (List.mem_cons_of_mem _ hd)⟩

theorem isChain_menu (items : List MenuItem) :
    (items.flatMap MenuItem.line).IsChain fun a b => ¬ (a = 10 ∧ b = 13) := by
  induction items with
  | nil => exact List.isChain_nil
  | cons item items ih =>
    obtain ⟨front, hline, hfront⟩ := item.front_line
    rw [List.flatMap_cons, hline, List.isChain_append]
    refine ⟨isChain_of_front hfront, ih, ?_⟩
    rintro a - b hb ⟨-, rfl⟩
    cases items with
    | nil => exact absurd hb (by simp)
    | cons next items =>
      have hkind : next.kind = 13 := Option.some.inj hb
      exact (isSeparator_iff.mp (next.plain next.kind List.mem_cons_self)).2.2 hkind

/-- There are no empty lines in a menu. -/
theorem IsMenu.no_emptyLine {text : List UInt8} (h : IsMenu text) : ¬ emptyLine <:+: text := by
  obtain ⟨items, rfl⟩ := h
  intro hempty
  have hchain := List.IsChain.infix (isChain_menu items) hempty
  exact absurd hchain (by decide)

/-- Nothing of the reference and the text of an entry ends a field. -/
def Entry.FreeOfSeparators (entry : Entry) : Prop :=
  ∀ c ∈ entry.resource ++ entry.text, isSeparator c = false

theorem languageSlash_plain (language explicitRequest implicitRequest : UInt8) :
    ∀ c ∈ languageSlash language explicitRequest implicitRequest, isSeparator c = false := by
  unfold languageSlash
  generalize languageExplicit language explicitRequest implicitRequest = explicit
  dsimp only
  split_ifs <;> exact forall_mem_of_all rfl

/-- The line of an internal reference is that of an item. -/
theorem referenceLine_eq (release : Bool) (languages : LinkLanguages) {entry : Entry}
    (h : entry.FreeOfSeparators) :
    ∃ item : MenuItem, item.line = referenceLine release languages entry := by
  have hdomain : ∀ c ∈ domainName release, isSeparator c = false := by
    cases release <;> exact forall_mem_of_all rfl
  have hport : ∀ c ∈ gopherPort release, isSeparator c = false := by
    cases release <;> exact forall_mem_of_all rfl
  refine ⟨⟨49, entry.text, entry.resource ++ languageSlash entry.language languages.requestedLanguage
    languages.requestLanguage, domainName release, gopherPort release, ?_⟩, ?_⟩
  · intro c hc
    simp only [List.mem_cons, List.mem_append] at hc
    rcases hc with rfl | ((hc | hc | hc) | hc) | hc
    · rfl
    · exact h c (List.mem_append_right _ hc)
    · exact h c (List.mem_append_left _ hc)
    · exact languageSlash_plain _ _ _ c hc
    · exact hdomain c hc
    · exact hport c hc
  · rw [MenuItem.line, referenceLine, show ascii "1" = [49] from rfl, show ascii "\t" = [9] from rfl]
    simp only [List.append_assoc, List.cons_append, List.nil_append]

/-- A printed page is a menu exactly if all its entries are internal references: the other items are
followed by an empty line. -/
theorem printPage_gopher_iff {refusal : Refusal} {release : Bool} {context page : PrintContext}
    {entries : List Entry} (hplain : ∀ entry ∈ entries, entry.FreeOfSeparators)
    (h : printPage (processorPrintGopher refusal release) context entries = .ok page) :
    IsMenu page.one ↔ ∀ entry ∈ entries, entry.style = .internalReference := by
  obtain ⟨hempty, hreferences⟩ := printPage_gopher h
  constructor
  · intro hmenu
    by_contra hother
    push Not at hother
    exact hmenu.no_emptyLine (hempty hother)
  · intro hall
    rw [hreferences hall]
    clear hempty hreferences hall h
    induction entries with
    | nil => exact ⟨[], rfl⟩
    | cons entry entries ih =>
      obtain ⟨item, hitem⟩ := referenceLine_eq release context.languages (hplain entry List.mem_cons_self)
      obtain ⟨items, hitems⟩ := ih fun e he => hplain e (List.mem_cons_of_mem _ he)
      refine ⟨item :: items, ?_⟩
      rw [List.flatMap_cons, List.flatMap_cons, hitems, hitem]

/-- One link. -/
theorem printPage_gopher_iff_link :
    let context : PrintContext := ⟨[], [], 101, true, .initial, 0, 101, 0⟩
    let entry : Entry := ⟨.internalReference, 100, ascii "about", ascii "Info", by decide⟩
    ∃ page, printPage (processorPrintGopher (fun _ => none) true) context [entry] = .ok page ∧
      (IsMenu page.one ↔ ∀ e ∈ [entry], e.style = .internalReference) := by
  intro context entry
  have hpage : printPage (processorPrintGopher (fun _ => none) true) context [entry] = .ok _ := rfl
  refine ⟨_, hpage, printPage_gopher_iff ?_ hpage⟩
  have hbytes : ∀ c ∈ ascii "about" ++ ascii "Info", isSeparator c = false := forall_mem_of_all rfl
  intro e he
  rw [List.mem_singleton.mp he]
  exact hbytes

/-- A text alone is followed by an empty line. -/
theorem text_not_menu :
    let context : PrintContext := ⟨[], [], 101, true, .initial, 0, 101, 0⟩
    let entry : Entry := ⟨.normal, 101, [], ascii "Hello", by decide⟩
    entry.FreeOfSeparators ∧ ∃ page,
      printPage (processorPrintGopher (fun _ => none) true) context [entry] = .ok page ∧
        page.one = ascii "iHello\tfake\t(NULL)\t0\r\n\r\n" ∧ ¬ IsMenu page.one := by
  intro context entry
  have hbytes : ∀ c ∈ [] ++ ascii "Hello", isSeparator c = false := forall_mem_of_all rfl
  refine ⟨hbytes, _, rfl, rfl, fun hmenu => hmenu.no_emptyLine ?_⟩
  exact ⟨ascii "iHello\tfake\t(NULL)\t0", [], rfl⟩

end Twinkleshine
