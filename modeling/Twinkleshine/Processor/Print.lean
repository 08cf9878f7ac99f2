import Twinkleshine.Library.Outcome
import Twinkleshine.Processor.Fixed
import Twinkleshine.Processor.Language

/-!
# Printing pages

Reference: `enum EntryStyle` and `struct ProcessorPrintContext` in `include/processor.h`,
`processor_print` in `source/processor/processor.c`, `processor_generic_paragraph` in
`source/processor/generic.c`.

A page is printed entry by entry, between `ES_INITIALIZE` and `ES_FINALIZE`, into the two internal buffers.
Every protocol has its own function for an entry. A text is what `format` and its arguments print; whether
the allocator gives room for it is up to the environment. When it refuses, the context is not used again.
-/

namespace Twinkleshine

open Library

/-! ## The context -/

/-- `enum EntryStyle` -/
inductive EntryStyle where
  /-- `ES_INITIALIZE` -/
  | initial
  /-- `ES_FINALIZE` -/
  | final
  | normal
  | paragraph
  | itemize
  | enumeration
  | quote
  | large
  | larger
  | largest
  | header
  | internalReference
  | externalReference
deriving DecidableEq, Repr

/-- `struct ProcessorPrintContext`, with what is read of the request. -/
structure PrintContext where
  one : List UInt8
  two : List UInt8
  /-- `request->language` -/
  requestLanguage : UInt8
  /-- `request->keep_alive` -/
  requestKeepAlive : Bool
  previousStyle : EntryStyle
  listIndex : ℕ
  language : UInt8
  requestedLanguage : UInt8
deriving DecidableEq, Repr

/-- What the language of a link depends on, beside that of the page. -/
structure LinkLanguages where
  requestedLanguage : UInt8
  requestLanguage : UInt8

/-- The languages of a context. -/
def PrintContext.languages (context : PrintContext) : LinkLanguages :=
  ⟨context.requestedLanguage, context.requestLanguage⟩

/-- How the allocator answers when a string needs room for a number of bytes: `none` when it gives it. -/
abbrev Refusal := ℕ → Option Error

/-- `string_append_mem`, `string_print_append` and `string_vprint_append` of what is printed -/
def appendText (refusal : Refusal) (string more : List UInt8) : Except Error (List UInt8) :=
  match refusal (string.length + more.length) with
  | some e => .error e
  | none => .ok (string ++ more)

/-- Several of them, one after the other. -/
def appendTexts (refusal : Refusal) (string : List UInt8) (pieces : List (List UInt8)) :
    Except Error (List UInt8) :=
  pieces.foldlM (appendText refusal) string

/-- `processor_generic_paragraph` -/
def processorGenericParagraph : EntryStyle → Bool
  | .paragraph | .quote | .large | .larger | .largest | .header => true
  | _ => false

/-! ## Printing entries -/

/-- The function of a protocol: a style, a resource and a text are printed into a context. -/
abbrev PrintFunction :=
  PrintContext → EntryStyle → List UInt8 → List UInt8 → Except Error PrintContext

/-- `processor_print` with the function of the protocol. -/
def processorPrint (print : PrintFunction) (context : PrintContext) (style : EntryStyle)
    (resource text : List UInt8) : Except Error PrintContext :=
  let context := { context with
    listIndex := if style = .enumeration then (context.listIndex + 1) % uintModulus else 0 }
  (print context style resource text).map fun context => { context with previousStyle := style }

/-- An entry between `ES_INITIALIZE` and `ES_FINALIZE`, with the language the context has then. -/
structure Entry where
  style : EntryStyle
  language : UInt8
  resource : List UInt8
  text : List UInt8
  content : style ≠ .initial ∧ style ≠ .final

/-- Print entries, one after the other. -/
def printEntries (print : PrintFunction) (context : PrintContext) (entries : List Entry) :
    Except Error PrintContext :=
  entries.foldlM (fun context entry => processorPrint print { context with language := entry.language }
    entry.style entry.resource entry.text) context

/-- Print a page. -/
def printPage (print : PrintFunction) (context : PrintContext) (entries : List Entry) :
    Except Error PrintContext :=
  (processorPrint print context .initial [] []).bind fun context =>
  (printEntries print context entries).bind fun context =>
  processorPrint print context .final [] []

/-! ## What is appended -/

variable {refusal : Refusal} {string : List UInt8}

theorem appendText_eq {more result : List UInt8} (h : appendText refusal string more = .ok result) :
    result = string ++ more := by
  unfold appendText at h
  split at h
  · exact absurd h (by simp)
  · cases h
    rfl

theorem appendTexts_eq {pieces : List (List UInt8)} {result : List UInt8}
    (h : appendTexts refusal string pieces = .ok result) : result = string ++ pieces.flatten := by
  induction pieces generalizing string with
  | nil =>
    cases h
    exact (List.append_nil _).symm
  | cons piece pieces ih =>
    obtain ⟨next, hnext, hrest⟩ := foldlM_cons_eq_ok.mp h
    rw [ih hrest, appendText_eq hnext, List.flatten_cons, List.append_assoc]

/-- An allocator that gives everything. -/
theorem appendTexts_granted (string : List UInt8) (pieces : List (List UInt8)) :
    appendTexts (fun _ => none) string pieces = .ok (string ++ pieces.flatten) := by
  induction pieces generalizing string with
  | nil => exact congrArg Except.ok (List.append_nil string).symm
  | cons piece pieces ih =>
    rw [List.flatten_cons, ← List.append_assoc, ← ih]
    rfl

/-- A page is begun, its entries are printed and it is ended. -/
theorem printPage_ok {print : PrintFunction} {context result : PrintContext} {entries : List Entry}
    (h : printPage print context entries = .ok result) :
    ∃ first last, processorPrint print context .initial [] [] = .ok first ∧
      printEntries print first entries = .ok last ∧
      processorPrint print last .final [] [] = .ok result := by
  obtain ⟨first, hfirst, h⟩ := bind_eq_ok.mp h
  obtain ⟨last, hlast, h⟩ := bind_eq_ok.mp h
  exact ⟨first, last, hfirst, hlast, h⟩

/-- What `processor_print` adds to the function of the protocol. -/
theorem processorPrint_ok {print : PrintFunction} {context result : PrintContext} {style : EntryStyle}
    {resource text : List UInt8} (h : processorPrint print context style resource text = .ok result) :
    ∃ listIndex printed, print { context with listIndex } style resource text = .ok printed ∧
      result = { printed with previousStyle := style } := by
  obtain ⟨printed, hprinted, rfl⟩ := map_eq_ok.mp h
  exact ⟨_, printed, hprinted, rfl⟩

end Twinkleshine
