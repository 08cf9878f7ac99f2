import Mathlib.Data.Fintype.Pi
import Mathlib.Data.List.Permutation
import Mathlib.Algebra.BigOperators.Fin
import Mathlib.Data.Fintype.BigOperators
import Mathlib.Data.Nat.Factorial.BigOperators

/-!
# The Fisher–Yates shuffle

From the last position down to the second, the element at a position is exchanged with one that is not
behind it. The choices of the positions are the only input. `fisherYates_perm` says that each run permutes
the list, and `fisherYates_injective` that the choices can be read off the result: the position that is
exchanged first is final, and where its element came from is the choice. There are as many sequences of
choices as permutations, so every permutation is the result of exactly one of them
(`fisherYates_bijective`).
-/

namespace Library

variable {α : Type}

/-! ## Exchanges -/

/-- The list with the elements at two positions exchanged. -/
def exchange (l : List α) (i j : ℕ) : List α :=
  if h : i < l.length ∧ j < l.length then (l.set i (l.get ⟨j, h.2⟩)).set j (l.get ⟨i, h.1⟩) else l

theorem exchange_eq {l : List α} {i j : ℕ} (hi : i < l.length) (hj : j < l.length) :
    exchange l i j = (l.set i l[j]).set j l[i] := dif_pos ⟨hi, hj⟩

@[simp] theorem length_exchange (l : List α) (i j : ℕ) : (exchange l i j).length = l.length := by
  unfold exchange
  split_ifs with h
  · rw [List.length_set, List.length_set]
  · rfl

theorem exchange_perm (l : List α) (i j : ℕ) : (exchange l i j).Perm l := by
  by_cases h : i < l.length ∧ j < l.length
  · rw [exchange_eq h.1 h.2]
    exact List.set_set_perm h.1 h.2
  · rw [exchange, dif_neg h]

/-- What stands at the first of the positions after the exchange. -/
theorem getElem?_exchange_left {l : List α} {i j : ℕ} (hi : i < l.length) (hj : j < l.length) :
    (exchange l i j)[i]? = l[j]? := by
  rw [exchange_eq hi hj, List.getElem?_set, List.length_set]
  split_ifs with hji
  · subst hji
    exact (List.getElem?_eq_getElem hi).symm
  · rw [List.getElem?_set_self hi, List.getElem?_eq_getElem hj]

/-- No other position is touched. -/
theorem getElem?_exchange_of_ne {l : List α} {i j k : ℕ} (hi : k ≠ i) (hj : k ≠ j) :
    (exchange l i j)[k]? = l[k]? := by
  unfold exchange
  split_ifs with h
  · rw [List.getElem?_set_ne hj.symm, List.getElem?_set_ne hi.symm]
  · rfl

/-! ## The shuffle -/

/-- The exchanges from position `n` down. -/
def fisherYates (choices : ℕ → ℕ) : ℕ → List α → List α
  | 0, l => l
  | n + 1, l => fisherYates choices n (exchange l (n + 1) (choices (n + 1)))

variable {choices choices' : ℕ → ℕ} {n : ℕ} {l : List α}

theorem fisherYates_perm (choices : ℕ → ℕ) (n : ℕ) (l : List α) : (fisherYates choices n l).Perm l := by
  induction n generalizing l with
  | zero => exact .refl l
  | succ n ih => exact (ih _).trans (exchange_perm l _ _)

/-- The positions behind the first one that is exchanged keep their elements. -/
theorem getElem?_fisherYates_of_lt (hchoices : ∀ i ≤ n, choices i ≤ i) {k : ℕ} (hk : n < k) :
    (fisherYates choices n l)[k]? = l[k]? := by
  induction n generalizing l with
  | zero => rfl
  | succ n ih =>
    have hchoice := hchoices (n + 1) (Nat.le_refl _)
    rw [fisherYates, ih (fun i hi => hchoices i (Nat.le_succ_of_le hi)) (Nat.lt_of_succ_lt hk),
      getElem?_exchange_of_ne (by omega) (by omega)]

/-- The position that is exchanged first is final. -/
theorem getElem?_fisherYates_last (hchoices : ∀ i ≤ n + 1, choices i ≤ i) (hn : n + 1 < l.length) :
    (fisherYates choices (n + 1) l)[n + 1]? = l[choices (n + 1)]? := by
  have hchoice := hchoices (n + 1) (Nat.le_refl _)
  rw [fisherYates, getElem?_fisherYates_of_lt (fun i hi => hchoices i (Nat.le_succ_of_le hi))
    (Nat.lt_succ_self n), getElem?_exchange_left hn (by omega)]

/-- Different choices give different results. -/
theorem fisherYates_injective (hl : l.Nodup) (hn : n < l.length) (hchoices : ∀ i ≤ n, choices i ≤ i)
    (hchoices' : ∀ i ≤ n, choices' i ≤ i)
    (h : fisherYates choices n l = fisherYates choices' n l) :
    ∀ i, 0 < i → i ≤ n → choices i = choices' i := by
  induction n generalizing l with
  | zero =>
    intro i hpos hi
    omega
  | succ n ih =>
    have hle := hchoices (n + 1) (Nat.le_refl _)
    have hlast : choices (n + 1) = choices' (n + 1) := by
      have hget := congrArg (fun result : List α => result[n + 1]?) h
      simp only [getElem?_fisherYates_last hchoices hn, getElem?_fisherYates_last hchoices' hn] at hget
      exact (List.getElem?_inj (by omega) hl).mp hget
    intro i hpos hi
    rcases Nat.eq_or_lt_of_le hi with rfl | hlt
    · exact hlast
    · rw [fisherYates, fisherYates, ← hlast] at h
      refine ih ((exchange_perm l _ _).nodup_iff.mpr hl) (by rw [length_exchange]; omega)
        (fun i hi => hchoices i (Nat.le_succ_of_le hi)) (fun i hi => hchoices' i (Nat.le_succ_of_le hi))
        h i hpos (Nat.le_of_lt_succ hlt)

/-! ## All choices, all orders -/

/-- A choice for each of the positions from the last one down to the second: for position `i + 1` one of
`i + 2` positions. -/
abbrev Choices (n : ℕ) : Type := (i : Fin (n - 1)) → Fin (i + 2)

/-- The choices by position. -/
def Choices.atPosition (c : Choices n) (i : ℕ) : ℕ :=
  if h : i - 1 < n - 1 ∧ 0 < i then c ⟨i - 1, h.1⟩ else 0

theorem Choices.atPosition_le (c : Choices n) (i : ℕ) : c.atPosition i ≤ i := by
  unfold Choices.atPosition
  split_ifs with h
  · have hlt := (c ⟨i - 1, h.1⟩).isLt
    simp only at hlt
    omega
  · exact Nat.zero_le i

theorem Choices.atPosition_succ (c : Choices n) (i : Fin (n - 1)) : c.atPosition (i + 1) = c i := by
  rw [Choices.atPosition, dif_pos ⟨by simp, Nat.succ_pos _⟩]
  rfl

/-- The orders of the numbers below `n`. -/
abbrev Arrangement (n : ℕ) : Type := {order : List ℕ // order.Perm (List.range n)}

instance (n : ℕ) : Fintype (Arrangement n) :=
  Fintype.subtype (List.range n).permutations.toFinset fun order => by
    rw [List.mem_toFinset, List.mem_permutations]

instance (n : ℕ) : Nonempty (Arrangement n) := ⟨⟨List.range n, .refl _⟩⟩

theorem card_arrangement (n : ℕ) : Fintype.card (Arrangement n) = n.factorial := by
  rw [Fintype.subtype_card, List.toFinset_card_of_nodup (List.nodup_permutations _ List.nodup_range),
    List.length_permutations, List.length_range]

theorem card_choices (n : ℕ) : Fintype.card (Choices n) = n.factorial := by
  rw [Fintype.card_pi]
  simp only [Fintype.card_fin]
  rcases n with _ | n
  · rfl
  · rw [Nat.add_sub_cancel, Fin.prod_univ_eq_prod_range (fun i => i + 2),
      ← Finset.prod_range_add_one_eq_factorial, Finset.prod_range_succ', Nat.zero_add, Nat.mul_one]

/-- The order a sequence of choices shuffles the numbers into. -/
def Choices.shuffled (c : Choices n) : Arrangement n :=
  ⟨fisherYates c.atPosition (n - 1) (List.range n), fisherYates_perm _ _ _⟩

/-- Every order is the result of exactly one sequence of choices. -/
theorem fisherYates_bijective (n : ℕ) :
    Function.Bijective (Choices.shuffled : Choices n → Arrangement n) := by
  rw [Fintype.bijective_iff_injective_and_card]
  refine ⟨fun c c' h => ?_, (card_choices n).trans (card_arrangement n).symm⟩
  funext i
  have hlength : n - 1 < (List.range n).length := by
    rw [List.length_range]
    have := i.isLt
    omega
  have hat := fisherYates_injective List.nodup_range hlength (fun i _ => c.atPosition_le i)
    (fun i _ => c'.atPosition_le i) (congrArg Subtype.val h) (i + 1) (Nat.succ_pos _) i.isLt
  rw [Choices.atPosition_succ, Choices.atPosition_succ] at hat
  exact Fin.ext hat

end Library
