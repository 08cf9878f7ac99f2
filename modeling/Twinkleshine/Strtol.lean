import Mathlib.Data.List.TakeDrop
import Twinkleshine.Constants

/-!
# Numbers at the front of a text

`strtoul` and `strtol` of the C library, for the base ten.
-/

namespace Twinkleshine

/-- The digits at the front of a text, and what follows them. -/
def splitDigits (bytes : List UInt8) : List UInt8 × List UInt8 :=
  bytes.span fun c => 48 ≤ c && c ≤ 57

/-- `strtoul(p, &end, 10)`: the number, which saturates, and where `end` points. Blanks and a sign go
before the digits; without digits nothing is read. -/
def strtoul (p : List UInt8) : ℕ × List UInt8 :=
  let blanks := p.dropWhile fun c => c == 32 || (9 ≤ c && c ≤ 13)
  let (negative, rest) : Bool × List UInt8 :=
    match blanks with
    | 43 :: rest => (false, rest)
    | 45 :: rest => (true, rest)
    | _ => (false, blanks)
  match splitDigits rest with
  | ([], _) => (0, p)
  | (digits, tail) =>
    let number := digits.foldl (fun n c => 10 * n + (c.toNat - 48)) 0
    if number ≥ sizeModulus then (sizeModulus - 1, tail)
    else (if negative then sizeSub 0 number else number, tail)

/-- `strtol(p, &end, 10)`: the number, which saturates, and where `end` points. -/
def strtol (p : List UInt8) : ℤ × List UInt8 :=
  let blanks := p.dropWhile fun c => c == 32 || (9 ≤ c && c ≤ 13)
  let (negative, rest) : Bool × List UInt8 :=
    match blanks with
    | 43 :: rest => (false, rest)
    | 45 :: rest => (true, rest)
    | _ => (false, blanks)
  match splitDigits rest with
  | ([], _) => (0, p)
  | (digits, tail) =>
    let number := digits.foldl (fun n c => 10 * n + (c.toNat - 48)) 0
    (if negative then -((min number (2 ^ 63) : ℕ) : ℤ) else ((min number (2 ^ 63 - 1) : ℕ) : ℤ), tail)

/-! ## Numbers that stand alone -/

/-- A digit. -/
def isDecimal (c : UInt8) : Bool := 48 ≤ c && c ≤ 57

/-- The number that digits stand for. -/
def digitsNumber (digits : List UInt8) : ℕ := digits.foldl (fun n c => 10 * n + (c.toNat - 48)) 0

/-- Reading more digits never makes a number smaller. -/
theorem le_foldl_decimal (digits : List UInt8) (n : ℕ) :
    n ≤ digits.foldl (fun n c => 10 * n + (c.toNat - 48)) n := by
  induction digits generalizing n with
  | nil => exact Nat.le_refl n
  | cons c digits ih => exact Nat.le_trans (show n ≤ 10 * n + (c.toNat - 48) by omega) (ih _)

variable {digits rest : List UInt8}

/-- Digits are split off where something else follows. -/
theorem splitDigits_append (hdigits : digits.all isDecimal = true)
    (hend : ∀ c ∈ rest.head?, isDecimal c = false) : splitDigits (digits ++ rest) = (digits, rest) := by
  have hall : ∀ c ∈ digits, isDecimal c = true := List.all_eq_true.mp hdigits
  have htake : rest.takeWhile isDecimal = [] := by
    rcases rest with _ | ⟨c, rest⟩
    · rfl
    · exact List.takeWhile_cons_of_neg (by rw [hend c rfl]; exact Bool.false_ne_true)
  have hdrop : rest.dropWhile isDecimal = rest := by
    rcases rest with _ | ⟨c, rest⟩
    · rfl
    · exact List.dropWhile_cons_of_neg (by rw [hend c rfl]; exact Bool.false_ne_true)
  show (digits ++ rest).span isDecimal = (digits, rest)
  rw [List.span_eq_takeWhile_dropWhile, List.takeWhile_append_of_pos hall, List.dropWhile_append_of_pos hall,
    htake, hdrop, List.append_nil]

/-- Nothing is skipped in front of a digit, and it is not a sign. -/
theorem unsigned_digit {c : UInt8} (hc : isDecimal c = true) (tail : List UInt8) :
    ((c :: tail).dropWhile fun c => c == 32 || (9 ≤ c && c ≤ 13)) = c :: tail ∧
      (match c :: tail with
        | 43 :: rest => (false, rest)
        | 45 :: rest => (true, rest)
        | _ => (false, c :: tail)) = ((false, c :: tail) : Bool × List UInt8) := by
  rw [isDecimal, Bool.and_eq_true, decide_eq_true_iff, decide_eq_true_iff, UInt8.le_iff_toNat_le,
    UInt8.le_iff_toNat_le] at hc
  have hlow : 48 ≤ c.toNat := hc.1
  have hblank : (c == 32 || (9 ≤ c && c ≤ 13)) = false := by
    rw [Bool.or_eq_false_iff, Bool.and_eq_false_iff, beq_eq_false_iff_ne, decide_eq_false_iff_not,
      decide_eq_false_iff_not, UInt8.le_iff_toNat_le, UInt8.le_iff_toNat_le]
    refine ⟨?_, .inr ?_⟩
    · rintro rfl
      exact absurd hlow (by decide)
    · rw [show (13 : UInt8).toNat = 13 from rfl]
      omega
  have hplus : c ≠ 43 := by
    rintro rfl
    exact absurd hlow (by decide)
  have hminus : c ≠ 45 := by
    rintro rfl
    exact absurd hlow (by decide)
  refine ⟨List.dropWhile_cons_of_neg (by rw [hblank]; exact Bool.false_ne_true), ?_⟩
  split
  · exact absurd (List.cons.inj ‹_›).1 hplus
  · exact absurd (List.cons.inj ‹_›).1 hminus
  · rfl

/-- A number in digits is read up to what follows it, and saturates. -/
theorem strtoul_saturates (hne : digits ≠ []) (hdigits : digits.all isDecimal = true)
    (hend : ∀ c ∈ rest.head?, isDecimal c = false) :
    strtoul (digits ++ rest) = (min (digitsNumber digits) (sizeModulus - 1), rest) := by
  obtain ⟨c, digits, rfl⟩ := List.exists_cons_of_ne_nil hne
  have hfirst : isDecimal c = true := List.all_eq_true.mp hdigits c List.mem_cons_self
  have hsplit := splitDigits_append hdigits hend
  rw [List.cons_append] at hsplit ⊢
  obtain ⟨hblanks, hsign⟩ := unsigned_digit hfirst (digits ++ rest)
  unfold strtoul
  simp only [hblanks, hsign, hsplit]
  by_cases hnumber : sizeModulus ≤ digitsNumber (c :: digits)
  · rw [Nat.min_eq_right (Nat.le_trans (Nat.sub_le _ _) hnumber)]
    exact if_pos hnumber
  · rw [Nat.min_eq_left (Nat.le_sub_one_of_lt (Nat.not_le.mp hnumber))]
    exact if_neg hnumber

theorem strtoul_digits (hne : digits ≠ []) (hdigits : digits.all isDecimal = true)
    (hend : ∀ c ∈ rest.head?, isDecimal c = false) (hnumber : digitsNumber digits < sizeModulus) :
    strtoul (digits ++ rest) = (digitsNumber digits, rest) := by
  rw [strtoul_saturates hne hdigits hend, Nat.min_eq_left (Nat.le_sub_one_of_lt hnumber)]

/-- So does `strtol`. -/
theorem strtol_digits (hne : digits ≠ []) (hdigits : digits.all isDecimal = true)
    (hend : ∀ c ∈ rest.head?, isDecimal c = false) (hnumber : digitsNumber digits < 2 ^ 63) :
    strtol (digits ++ rest) = ((digitsNumber digits : ℤ), rest) := by
  obtain ⟨c, digits, rfl⟩ := List.exists_cons_of_ne_nil hne
  have hfirst : isDecimal c = true := List.all_eq_true.mp hdigits c List.mem_cons_self
  have hsplit := splitDigits_append hdigits hend
  rw [List.cons_append] at hsplit ⊢
  obtain ⟨hblanks, hsign⟩ := unsigned_digit hfirst (digits ++ rest)
  unfold strtol
  simp only [hblanks, hsign, hsplit, Bool.false_eq_true, if_false, Prod.mk.injEq, and_true]
  have hmin : min (digitsNumber (c :: digits)) (2 ^ 63 - 1) = digitsNumber (c :: digits) :=
    Nat.min_eq_left (Nat.le_sub_one_of_lt hnumber)
  exact congrArg Int.ofNat hmin

/-! ## Numbers that are printed -/

/-- The bytes of a number in decimal are digits, and stand for it. -/
theorem toDigits_bytes (n : ℕ) :
    (Nat.toDigits 10 n).map (fun c => c.toNat.toUInt8) ≠ [] ∧
      ((Nat.toDigits 10 n).map fun c => c.toNat.toUInt8).all isDecimal = true ∧
      digitsNumber ((Nat.toDigits 10 n).map fun c => c.toNat.toUInt8) = n := by
  have hdigit : ∀ c ∈ Nat.toDigits 10 n, 48 ≤ c.toNat ∧ c.toNat ≤ 57 := fun c hc =>
    Char.isDigit_iff_toNat.mp (Nat.isDigit_of_mem_toDigits (by decide) (by decide) hc)
  have hbyte : ∀ c ∈ Nat.toDigits 10 n, c.toNat.toUInt8.toNat = c.toNat := by
    intro c hc
    have := hdigit c hc
    rw [Nat.toUInt8, UInt8.toNat_ofNat', Nat.mod_eq_of_lt (show c.toNat < 2 ^ 8 by omega)]
  refine ⟨fun hnil => Nat.toDigits_ne_nil (List.map_eq_nil_iff.mp hnil), ?_, ?_⟩
  · rw [List.all_map, List.all_eq_true]
    intro c hc
    rw [Function.comp_apply, isDecimal, Bool.and_eq_true, decide_eq_true_iff, decide_eq_true_iff,
      UInt8.le_iff_toNat_le, UInt8.le_iff_toNat_le, hbyte c hc]
    exact hdigit c hc
  · have hfold : ∀ (cs : List Char) (m : ℕ), (∀ c ∈ cs, c.toNat.toUInt8.toNat = c.toNat) →
        (cs.map fun c => c.toNat.toUInt8).foldl (fun n c => 10 * n + (c.toNat - 48)) m
          = Nat.ofDigitChars 10 cs m := by
      intro cs
      induction cs with
      | nil => exact fun _ _ => rfl
      | cons c cs ih =>
        intro m hcs
        rw [List.map_cons, List.foldl_cons, hcs c List.mem_cons_self, Nat.ofDigitChars_cons]
        exact ih _ fun c' hc' => hcs c' (List.mem_cons_of_mem _ hc')
    rw [digitsNumber, hfold _ 0 hbyte, Nat.ofDigitChars_ten_toDigits]

end Twinkleshine
