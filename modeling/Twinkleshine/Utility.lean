import Twinkleshine.Processor.Fixed

/-!
# The length of a number

Reference: `int_length` in `source/utility.c`.
-/

namespace Twinkleshine

/-- The loop of `int_length`. When the threshold has wrapped to zero it never ends. -/
def intLengthLoop : ℕ → ℕ → ℕ → ℕ → Option ℕ
  | 0, _, _, _ => none
  | fuel + 1, a, length, threshold =>
    if a ≥ threshold then intLengthLoop fuel a (length + 1) (threshold * 10 % sizeModulus)
    else some length

/-- `int_length`, `none` when it never returns. -/
def intLength (a : ℕ) : Option ℕ := intLengthLoop 66 a 1 10

/-- While the threshold is the power of ten that belongs to the length, the loop finds the number of
digits. -/
theorem intLengthLoop_eq (fuel : ℕ) {a length : ℕ} (ha : a < 10 ^ 18) (hlength : 0 < length)
    (hle : length ≤ (Nat.toDigits 10 a).length)
    (hfuel : (Nat.toDigits 10 a).length < fuel + length) :
    intLengthLoop fuel a length (10 ^ length) = some (Nat.toDigits 10 a).length := by
  have hdigits : (Nat.toDigits 10 a).length ≤ 18 :=
    (Nat.length_toDigits_le_iff (by omega) (by omega)).mpr ha
  induction fuel generalizing length with
  | zero => omega
  | succ fuel ih =>
    rw [intLengthLoop]
    by_cases hlt : a < 10 ^ length
    · rw [if_neg (by omega)]
      have := (Nat.length_toDigits_le_iff (n := a) (by omega) hlength).mpr hlt
      exact congrArg some (by omega)
    · have hgt : length < (Nat.toDigits 10 a).length := by
        by_contra hge
        exact hlt ((Nat.length_toDigits_le_iff (by omega) hlength).mp (by omega))
      have hpow : 10 ^ (length + 1) ≤ 10 ^ 18 := Nat.pow_le_pow_right (by omega) (by omega)
      have hstep : 10 ^ length * 10 % sizeModulus = 10 ^ (length + 1) := by
        rw [← pow_succ]
        exact Nat.mod_eq_of_lt (Nat.lt_of_le_of_lt hpow (by decide))
      rw [if_pos (by omega), hstep]
      exact ih (by omega) (by omega) (by omega)

/-- The length of an `unsigned int` is the number of characters `%u` prints. -/
theorem intLength_eq {a : ℕ} (ha : a < 2 ^ 32) : intLength a = some (decimal a).length := by
  have hsmall : a < 10 ^ 18 := Nat.lt_trans ha (by decide)
  have hdigits : (Nat.toDigits 10 a).length ≤ 18 :=
    (Nat.length_toDigits_le_iff (by omega) (by omega)).mpr hsmall
  have hloop := intLengthLoop_eq 66 hsmall Nat.one_pos (Nat.length_toDigits_pos (n := a))
    (by omega)
  rw [intLength, ← pow_one 10, hloop, decimal, List.length_map,
    show a % uintModulus = a from Nat.mod_eq_of_lt ha]

end Twinkleshine
