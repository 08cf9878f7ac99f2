import Mathlib.Data.List.Basic
import Mathlib.Tactic.Common

/-!
# Tags of a marked up text

A tag stands between angle brackets. The elements that tags open are closed in the reverse order, unless
they are void. `tags` reads the tags of a text, and `nest` follows the stack of open elements.
-/

namespace Library

/-- The characters that begin and end a tag. -/
def isAngle (c : UInt8) : Bool := c == 60 || c == 62

inductive Tag where
  | opening (name : List UInt8)
  | closing (name : List UInt8)
  | declaration
deriving DecidableEq, Repr

/-- The tag with a content; the attributes of an element stand behind a space. -/
def tagOf : List UInt8 → Tag
  | 33 :: _ => .declaration
  | 47 :: name => .closing name
  | content => .opening (content.takeWhile (· != 32))

/-- The tags of a text, of which `content` was read since the last tag began. -/
def scanTags : Option (List UInt8) → List UInt8 → Option (List Tag)
  | none, [] => some []
  | some _, [] => none
  | none, c :: text =>
    if c = 60 then scanTags (some []) text else if c = 62 then none else scanTags none text
  | some content, c :: text =>
    if c = 62 then (scanTags none text).map (tagOf content :: ·)
    else if c = 60 then none
    else scanTags (some (content ++ [c])) text

/-- The tags of a text, unless its brackets do not match. -/
def tags (text : List UInt8) : Option (List Tag) := scanTags none text

/-- The elements that are open behind tags. -/
def nest (void : List UInt8 → Bool) : List Tag → List (List UInt8) → Option (List (List UInt8))
  | [], opened => some opened
  | .declaration :: tags, opened => nest void tags opened
  | .opening name :: tags, opened =>
    if void name then nest void tags opened else nest void tags (name :: opened)
  | .closing _ :: _, [] => none
  | .closing name :: tags, innermost :: opened =>
    if name = innermost then nest void tags opened else none

/-- Every element that is opened is closed, in the reverse order, and no other is closed. -/
def WellNested (void : List UInt8 → Bool) (text : List UInt8) : Prop :=
  ∃ read, tags text = some read ∧ nest void read [] = some []

/-! ## Composition -/

variable {void : List UInt8 → Bool} {text content : List UInt8} {read : List Tag}

theorem scanTags_append {inside : Option (List UInt8)} (h : scanTags inside text = some read)
    (rest : List UInt8) : scanTags inside (text ++ rest) = (tags rest).map (read ++ ·) := by
  induction text generalizing inside read with
  | nil =>
    cases inside with
    | none =>
      cases h
      exact (Option.map_id' (x := tags rest)).symm
    | some content => exact absurd h (by simp [scanTags])
  | cons c text ih =>
    cases inside with
    | none =>
      rw [List.cons_append]
      unfold scanTags at h ⊢
      split_ifs at h ⊢ <;> exact ih h
    | some content =>
      rw [List.cons_append]
      unfold scanTags at h ⊢
      split_ifs at h ⊢ with hend hbegin
      · obtain ⟨more, hmore, rfl⟩ := Option.map_eq_some_iff.mp h
        rw [ih hmore, Option.map_map]
        rfl
      · exact ih h

/-- The tags of a text are those of its parts. -/
theorem tags_append {more : List Tag} {rest : List UInt8} (h : tags text = some read)
    (hrest : tags rest = some more) : tags (text ++ rest) = some (read ++ more) := by
  rw [tags, scanTags_append h, hrest]
  rfl

theorem tags_flatMap {α : Type} {render : α → List UInt8} {tagsOf : α → List Tag} {parts : List α}
    (h : ∀ part ∈ parts, tags (render part) = some (tagsOf part)) :
    tags (parts.flatMap render) = some (parts.flatMap tagsOf) := by
  induction parts with
  | nil => rfl
  | cons part parts ih =>
    rw [List.flatMap_cons, List.flatMap_cons]
    exact tags_append (h part List.mem_cons_self) (ih fun p hp => h p (List.mem_cons_of_mem _ hp))

/-- Plain text has no tags. -/
theorem tags_of_plain (h : ∀ c ∈ text, isAngle c = false) : tags text = some [] := by
  induction text with
  | nil => rfl
  | cons c text ih =>
    have hc := h c List.mem_cons_self
    rw [isAngle, Bool.or_eq_false_iff, beq_eq_false_iff_ne, beq_eq_false_iff_ne] at hc
    rw [tags, scanTags, if_neg hc.1, if_neg hc.2]
    exact ih fun d hd => h d (List.mem_cons_of_mem _ hd)

/-- Inside a tag, plain text belongs to its content. -/
theorem scanTags_of_plain (h : ∀ c ∈ text, isAngle c = false) (rest : List UInt8) :
    scanTags (some content) (text ++ rest) = scanTags (some (content ++ text)) rest := by
  induction text generalizing content with
  | nil => rw [List.nil_append, List.append_nil]
  | cons c text ih =>
    have hc := h c List.mem_cons_self
    rw [isAngle, Bool.or_eq_false_iff, beq_eq_false_iff_ne, beq_eq_false_iff_ne] at hc
    rw [List.cons_append, scanTags, if_neg hc.2, if_neg hc.1,
      ih fun d hd => h d (List.mem_cons_of_mem _ hd), List.append_assoc, List.singleton_append]

/-- A tag with a plain content. -/
theorem tags_of_tag (h : ∀ c ∈ content, isAngle c = false) :
    tags (60 :: (content ++ [62])) = some [tagOf content] := by
  show scanTags (some []) (content ++ [62]) = _
  rw [scanTags_of_plain h]
  rfl

theorem nest_opening (name : List UInt8) (read : List Tag) (opened : List (List UInt8)) :
    nest void (.opening name :: read) opened
      = if void name then nest void read opened else nest void read (name :: opened) := rfl

theorem nest_closing (name innermost : List UInt8) (read : List Tag) (opened : List (List UInt8)) :
    nest void (.closing name :: read) (innermost :: opened)
      = if name = innermost then nest void read opened else none := rfl

theorem nest_append (first second : List Tag) (opened : List (List UInt8)) :
    nest void (first ++ second) opened = (nest void first opened).bind (nest void second) := by
  induction first generalizing opened with
  | nil => rfl
  | cons tag first ih =>
    rw [List.cons_append]
    cases tag with
    | declaration => exact ih opened
    | opening name =>
      rw [nest_opening, nest_opening]
      split_ifs <;> exact ih _
    | closing name =>
      cases opened with
      | nil => rfl
      | cons innermost opened =>
        rw [nest_closing, nest_closing]
        split_ifs
        · exact ih opened
        · rfl

/-- Parts that close what they open leave the open elements as they are. -/
theorem nest_flatMap {α : Type} {tagsOf : α → List Tag} {parts : List α}
    {opened : List (List UInt8)}
    (h : ∀ part ∈ parts, nest void (tagsOf part) opened = some opened) :
    nest void (parts.flatMap tagsOf) opened = some opened := by
  induction parts with
  | nil => rfl
  | cons part parts ih =>
    rw [List.flatMap_cons, nest_append, h part List.mem_cons_self, Option.bind_some]
    exact ih fun p hp => h p (List.mem_cons_of_mem _ hp)

end Library
