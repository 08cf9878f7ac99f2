import Twinkleshine.Library.Yields
import Twinkleshine.Processor.Print

/-!
# Printers that append

Reference: `processor_print` in `source/processor/processor.c`.

Gemini, Spartan, Guppy, Nex, Text and Finger append to the first buffer what they print for an entry, which
depends on the style of the entry in front of it and on the number `processor_print` has counted for it.
`PrintsBody` is all that a page needs to know of such a printer.
-/

namespace Twinkleshine

open Library

/-- What a printer appends for an entry: it knows the languages, the style in front and the number. -/
abbrev Added := LinkLanguages → EntryStyle → ℕ → Entry → List UInt8

/-- The number of an entry behind one with a number: enumerations are counted, and all others end them. -/
def entryNumber (number : ℕ) (entry : Entry) : ℕ :=
  if entry.style = .enumeration then (number + 1) % uintModulus else 0

/-- What is appended for entries, from a style and a number on. -/
def printedBody (added : Added) (languages : LinkLanguages) : EntryStyle → ℕ → List Entry → List UInt8
  | _, _, [] => []
  | previous, number, entry :: rest =>
    added languages previous (entryNumber number entry) entry
      ++ printedBody added languages entry.style (entryNumber number entry) rest

/-- The allocator has refused with this error. -/
def Refused (refusal : Refusal) (e : Error) : Prop := ∃ size, refusal size = some e

/-- A printer begins a page with a status, appends what it prints of entries and finishes the page. -/
structure PrintsBody (print : PrintFunction) (status : List UInt8)
    (finish : List UInt8 → Except Error (List UInt8)) (added : Added) (refused : Error → Prop) : Prop where
  initial : ∀ context, Yields (print context .initial [] [])
    (· = { context with one := status, two := [] }) refused
  entry : ∀ context (entry : Entry), context.language = entry.language →
    Yields (print context entry.style entry.resource entry.text)
      (· = { context with
        one := context.one ++ added context.languages context.previousStyle context.listIndex entry })
      refused
  final : ∀ context, Yields (print context .final [] [])
    (fun printed => finish context.one = .ok printed.one ∧ printed.two = context.two) refused

theorem appendText_yields (refusal : Refusal) (string more : List UInt8) :
    Yields (appendText refusal string more) (· = string ++ more) (Refused refusal) := by
  rw [appendText]
  split
  case h_1 e he => exact ⟨_, he⟩
  case h_2 => exact rfl

theorem appendTexts_yields (refusal : Refusal) (string : List UInt8) (pieces : List (List UInt8)) :
    Yields (appendTexts refusal string pieces) (· = string ++ pieces.flatten) (Refused refusal) := by
  induction pieces generalizing string with
  | nil => exact (List.append_nil string).symm
  | cons piece pieces ih =>
    refine Yields.foldlM_cons (appendText_yields refusal string piece) ?_
    rintro _ rfl
    refine (ih (string ++ piece)).mono fun whole hwhole => hwhole.trans ?_
    rw [List.flatten_cons, List.append_assoc]

/-- What `processor_print` adds to the function of the protocol. -/
theorem processorPrint_yields {print : PrintFunction} {context : PrintContext} {style : EntryStyle}
    {resource text : List UInt8} {post : PrintContext → Prop} {refused : Error → Prop}
    (h : Yields (print { context with
      listIndex := if style = .enumeration then (context.listIndex + 1) % uintModulus else 0 }
        style resource text) post refused) :
    Yields (processorPrint print context style resource text)
      (fun result => ∃ printed, post printed ∧ result = { printed with previousStyle := style })
      refused :=
  h.map fun printed hprinted => ⟨printed, hprinted, rfl⟩

namespace PrintsBody

variable {print : PrintFunction} {status : List UInt8} {finish : List UInt8 → Except Error (List UInt8)}
  {added : Added} {refused : Error → Prop}

/-- Entries are printed behind what is there. -/
theorem printEntries (h : PrintsBody print status finish added refused) (entries : List Entry)
    (context : PrintContext) : Yields (Twinkleshine.printEntries print context entries)
      (fun printed => printed.one = context.one
          ++ printedBody added context.languages context.previousStyle context.listIndex entries ∧
        printed.two = context.two) refused := by
  induction entries generalizing context with
  | nil => exact ⟨(List.append_nil _).symm, rfl⟩
  | cons entry entries ih =>
    refine Yields.foldlM_cons (processorPrint_yields (h.entry _ entry rfl)) ?_
    rintro _ ⟨_, rfl, rfl⟩
    refine (ih _).mono fun printed ⟨hone, htwo⟩ => ⟨hone.trans ?_, htwo⟩
    rw [printedBody, ← List.append_assoc]
    rfl

/-- A page is its status and what is appended for its entries, finished. -/
theorem printPage (h : PrintsBody print status finish added refused) (entries : List Entry)
    (context : PrintContext) : Yields (Twinkleshine.printPage print context entries)
      (fun page =>
        finish (status ++ printedBody added context.languages .initial 0 entries) = .ok page.one ∧
          page.two = []) refused := by
  refine (processorPrint_yields (h.initial _)).bind ?_
  rintro _ ⟨_, rfl, rfl⟩
  refine (h.printEntries entries _).bind fun last ⟨hone, htwo⟩ => ?_
  refine (processorPrint_yields (h.final _)).mono ?_
  rintro _ ⟨page, ⟨hfinish, hkept⟩, rfl⟩
  refine ⟨?_, hkept.trans htwo⟩
  rw [← hfinish]
  exact congrArg finish hone.symm

end PrintsBody

end Twinkleshine
