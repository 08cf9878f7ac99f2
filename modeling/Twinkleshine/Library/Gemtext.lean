import Mathlib.Data.List.TakeWhile
import Twinkleshine.Library.TextLines

/-!
# Gemtext

A text of lines, each of which says by the bytes it begins with what it is: a link, a heading, an item of a
list or a quote. A line that says nothing is text, and so is every line between two that begin with three
backquotes.

`readGemtext_lines` says that lines are read one by one, as long as none of them begins or ends such a
preformatted block.
-/

namespace Library

/-- What a line is. -/
inductive GemtextLine where
  | text (text : List UInt8)
  | link (url label : List UInt8)
  | heading (level : ℕ) (text : List UInt8)
  | item (text : List UInt8)
  | quote (text : List UInt8)
  /-- The begin or the end of preformatted lines -/
  | toggle
deriving DecidableEq, Repr

/-- A space or a TAB. -/
def isSpacing (c : UInt8) : Bool := c == 32 || c == 9

/-- `=>`, a URL and a label. -/
def readLink (rest : List UInt8) : GemtextLine :=
  let rest := rest.dropWhile isSpacing
  .link (rest.takeWhile (!isSpacing ·)) ((rest.dropWhile (!isSpacing ·)).dropWhile isSpacing)

/-- A line outside of preformatted ones. -/
def readGemtextLine : List UInt8 → GemtextLine
  | 61 :: 62 :: rest => readLink rest
  | 96 :: 96 :: 96 :: _ => .toggle
  | 35 :: 35 :: 35 :: rest => .heading 3 (rest.dropWhile isSpacing)
  | 35 :: 35 :: rest => .heading 2 (rest.dropWhile isSpacing)
  | 35 :: rest => .heading 1 (rest.dropWhile isSpacing)
  | 42 :: 32 :: rest => .item rest
  | 62 :: rest => .quote (rest.dropWhile isSpacing)
  | line => .text line

/-- The lines, from one that is preformatted, or is not, on. -/
def readGemtextLines : Bool → List (List UInt8) → List GemtextLine
  | _, [] => []
  | preformatted, line :: rest =>
    if readGemtextLine line = .toggle then .toggle :: readGemtextLines (!preformatted) rest
    else (if preformatted then .text line else readGemtextLine line) :: readGemtextLines preformatted rest

/-- All lines of a text. -/
def readGemtext (text : List UInt8) : List GemtextLine := readGemtextLines false (readLines text)

/-- Lines that begin no preformatted ones are read one by one. -/
theorem readGemtext_lines {lines : List (List UInt8)} (hlines : ∀ line ∈ lines, IsLine line)
    (htoggle : ∀ line ∈ lines, readGemtextLine line ≠ .toggle) :
    readGemtext (lines.flatMap (· ++ [13, 10])) = lines.map readGemtextLine := by
  rw [readGemtext, readLines_crlf hlines]
  clear hlines
  induction lines with
  | nil => rfl
  | cons line lines ih =>
    rw [readGemtextLines, if_neg (htoggle line List.mem_cons_self), if_neg Bool.false_ne_true,
      ih fun other hother => htoggle other (List.mem_cons_of_mem _ hother)]
    rfl

/-! ## What a line is read as -/

/-- A text that does not begin with a space. -/
def Unspaced (text : List UInt8) : Prop := ∀ c ∈ text.head?, isSpacing c = false

theorem Unspaced.dropWhile {text : List UInt8} (h : Unspaced text) : text.dropWhile isSpacing = text := by
  cases text with
  | nil => rfl
  | cons c text => exact List.dropWhile_cons_of_neg (by simp [h c rfl])

theorem Unspaced.dropWhile_space {text : List UInt8} (h : Unspaced text) :
    ((32 : UInt8) :: text).dropWhile isSpacing = text := by
  rw [List.dropWhile_cons_of_pos rfl, h.dropWhile]

/-- A byte that ends neither a URL nor a line. -/
def isUrlByte (c : UInt8) : Bool := !isSpacing c && c != 10 && c != 13

/-- A text that can be the URL of a link. -/
structure IsUrl (url : List UInt8) : Prop where
  nonempty : url ≠ []
  bytes : url.all isUrlByte = true

theorem IsUrl.unspaced {url : List UInt8} (h : IsUrl url) {c : UInt8} (hc : c ∈ url) :
    isSpacing c = false := by
  have hbyte := List.all_eq_true.mp h.bytes c hc
  simp only [isUrlByte, Bool.and_eq_true, Bool.not_eq_true'] at hbyte
  exact hbyte.1.1

theorem IsUrl.isLine {url : List UInt8} (h : IsUrl url) : IsLine url := by
  intro c hc
  have hbyte := List.all_eq_true.mp h.bytes c hc
  simp only [isUrlByte, Bool.and_eq_true, bne_iff_ne] at hbyte
  exact ⟨hbyte.1.2, hbyte.2⟩

section

variable {text : List UInt8} (h : Unspaced text)
include h

theorem readGemtextLine_heading1 : readGemtextLine ([35, 32] ++ text) = .heading 1 text :=
  congrArg (GemtextLine.heading 1) h.dropWhile_space

theorem readGemtextLine_heading2 : readGemtextLine ([35, 35, 32] ++ text) = .heading 2 text :=
  congrArg (GemtextLine.heading 2) h.dropWhile_space

theorem readGemtextLine_heading3 : readGemtextLine ([35, 35, 35, 32] ++ text) = .heading 3 text :=
  congrArg (GemtextLine.heading 3) h.dropWhile_space

theorem readGemtextLine_quote : readGemtextLine ([62, 32] ++ text) = .quote text :=
  congrArg GemtextLine.quote h.dropWhile_space

theorem readGemtextLine_link {url : List UInt8} (hurl : IsUrl url) :
    readGemtextLine ([61, 62, 32] ++ url ++ [32] ++ text) = .link url text := by
  have hneg : ∀ c ∈ url, (!isSpacing c) = true := by
    intro c hc
    rw [hurl.unspaced hc, Bool.not_false]
  have hfront : Unspaced (url ++ ([32] ++ text)) := by
    intro c hc
    rw [List.head?_append_of_ne_nil _ hurl.nonempty] at hc
    exact hurl.unspaced (List.mem_of_mem_head? hc)
  have hread : readGemtextLine ([61, 62, 32] ++ url ++ [32] ++ text)
      = readLink (32 :: (url ++ ([32] ++ text))) := by
    rw [List.append_assoc, List.append_assoc]
    rfl
  rw [hread, readLink, hfront.dropWhile_space]
  rw [List.takeWhile_append_of_pos hneg, List.dropWhile_append_of_pos hneg]
  -- the space behind the URL ends it
  have hspace : ([32] ++ text).takeWhile (!isSpacing ·) = [] := List.takeWhile_cons_of_neg (by decide)
  have hrest : ([32] ++ text).dropWhile (!isSpacing ·) = 32 :: text := List.dropWhile_cons_of_neg (by decide)
  rw [hspace, hrest, List.append_nil, h.dropWhile_space]

end

/-- A line that begins with a digit is text. -/
theorem readGemtextLine_digit {c : UInt8} (hc : 48 ≤ c ∧ c ≤ 57) (rest : List UInt8) :
    readGemtextLine (c :: rest) = .text (c :: rest) := by
  have hne : c ≠ 61 ∧ c ≠ 96 ∧ c ≠ 35 ∧ c ≠ 42 ∧ c ≠ 62 := by
    refine ⟨?_, ?_, ?_, ?_, ?_⟩ <;> rintro rfl <;> exact absurd hc (by decide)
  obtain ⟨hlink, htoggle, hheading, hitem, hquote⟩ := hne
  unfold readGemtextLine
  split
  case h_8 => rfl
  all_goals
    rename_i heq
    cases heq
    contradiction

end Library
