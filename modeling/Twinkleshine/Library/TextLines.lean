import Mathlib.Data.List.Basic

/-!
# Lines of a text

A line ends with a line feed, and perhaps a carriage return in front of it. `readLines_crlf` and
`readLines_lf` say that lines which are written with either of the two ends are read back.
-/

namespace Library

/-- The lines of a text. The line feed that ends a line is not a part of it. -/
def splitLines : List UInt8 → List UInt8 → List (List UInt8)
  | [], line => if line.isEmpty then [] else [line.reverse]
  | c :: rest, line => if c = 10 then line.reverse :: splitLines rest [] else splitLines rest (c :: line)

/-- A line without the carriage return that may end it. -/
def withoutReturn (line : List UInt8) : List UInt8 :=
  if line.getLast? = some 13 then line.dropLast else line

/-- The lines of a text, whichever way they end. -/
def readLines (text : List UInt8) : List (List UInt8) := (splitLines text []).map withoutReturn

/-- A line has neither a line feed nor a carriage return in it. -/
def IsLine (line : List UInt8) : Prop := ∀ c ∈ line, c ≠ 10 ∧ c ≠ 13

theorem IsLine.append {a b : List UInt8} (ha : IsLine a) (hb : IsLine b) : IsLine (a ++ b) := by
  intro c hc
  rcases List.mem_append.mp hc with hc | hc
  · exact ha c hc
  · exact hb c hc

/-- Whether a line is one can be computed. -/
theorem isLine_of_all {line : List UInt8} (h : line.all (fun c => c != 10 && c != 13) = true) :
    IsLine line := by
  intro c hc
  have hbyte := List.all_eq_true.mp h c hc
  rw [Bool.and_eq_true, bne_iff_ne, bne_iff_ne] at hbyte
  exact hbyte

theorem splitLines_line {line : List UInt8} (hline : 10 ∉ line) (rest front : List UInt8) :
    splitLines (line ++ ([10] ++ rest)) front = (front.reverse ++ line) :: splitLines rest [] := by
  induction line generalizing front with
  | nil =>
    rw [List.nil_append, List.cons_append, List.nil_append, splitLines, if_pos rfl, List.append_nil]
  | cons c line ih =>
    obtain ⟨hc, hline⟩ := List.ne_and_not_mem_of_not_mem_cons hline
    rw [List.cons_append, splitLines, if_neg hc.symm, ih hline, List.reverse_cons]
    simp only [List.append_assoc, List.singleton_append]

/-- Lines with line feeds behind them are split there. -/
theorem splitLines_flatMap {lines : List (List UInt8)} (hlines : ∀ line ∈ lines, 10 ∉ line) :
    splitLines (lines.flatMap (· ++ [10])) [] = lines := by
  induction lines with
  | nil => rfl
  | cons line lines ih =>
    rw [List.flatMap_cons, List.append_assoc, splitLines_line (hlines line List.mem_cons_self),
      ih fun other hother => hlines other (List.mem_cons_of_mem _ hother)]
    rfl

theorem withoutReturn_append (line : List UInt8) : withoutReturn (line ++ [13]) = line := by
  rw [withoutReturn, List.getLast?_concat, if_pos rfl, List.dropLast_concat]

theorem IsLine.withoutReturn_eq {line : List UInt8} (h : IsLine line) : withoutReturn line = line := by
  refine if_neg fun hlast => ?_
  exact (h 13 (List.mem_of_getLast? hlast)).2 rfl

theorem readLines_lf {lines : List (List UInt8)} (hlines : ∀ line ∈ lines, IsLine line) :
    readLines (lines.flatMap (· ++ [10])) = lines := by
  rw [readLines, splitLines_flatMap fun line hline hmem => (hlines line hline 10 hmem).1 rfl]
  refine (List.map_congr_left fun line hline => ?_).trans (List.map_id lines)
  exact (hlines line hline).withoutReturn_eq

theorem readLines_crlf {lines : List (List UInt8)} (hlines : ∀ line ∈ lines, IsLine line) :
    readLines (lines.flatMap (· ++ [13, 10])) = lines := by
  have hends : lines.flatMap (· ++ [13, 10]) = (lines.map (· ++ [13])).flatMap (· ++ [10]) := by
    rw [List.flatMap_map]
    simp only [List.append_assoc, List.singleton_append]
  have hfree : ∀ line ∈ lines.map (· ++ [13]), 10 ∉ line := by
    intro _ hmem
    obtain ⟨line, hline, rfl⟩ := List.mem_map.mp hmem
    simpa using fun h10 => (hlines line hline 10 h10).1 rfl
  rw [hends, readLines, splitLines_flatMap hfree, List.map_map]
  refine (List.map_congr_left fun line _ => ?_).trans (List.map_id lines)
  exact withoutReturn_append line

end Library
