import Mathlib.Order.Lattice
import Mathlib.Data.List.Basic

/-!
# The first of the greatest

The element of a list that a scan from the left keeps when it replaces its candidate by greater elements
only.
-/

namespace Library

variable {α β : Type*} [LinearOrder β] {score : α → β} {xs : List α} {winner x : α}

/-- `winner` is the first element of the list with the greatest score. -/
def FirstMax (score : α → β) (xs : List α) (winner : α) : Prop :=
  ∃ before after, xs = before ++ winner :: after ∧ (∀ x ∈ before, score x < score winner) ∧
    ∀ x ∈ after, score x ≤ score winner

namespace FirstMax

theorem singleton (score : α → β) (winner : α) : FirstMax score [winner] winner :=
  ⟨[], [], rfl, fun _ hx => absurd hx List.not_mem_nil, fun _ hx => absurd hx List.not_mem_nil⟩

theorem mem (h : FirstMax score xs winner) : winner ∈ xs := by
  obtain ⟨before, after, rfl, -, -⟩ := h
  exact List.mem_append_right _ List.mem_cons_self

theorem le (h : FirstMax score xs winner) (hx : x ∈ xs) : score x ≤ score winner := by
  obtain ⟨before, after, rfl, hbefore, hafter⟩ := h
  rcases List.mem_append.mp hx with hx | hx
  · exact (hbefore x hx).le
  rcases List.mem_cons.mp hx with rfl | hx
  · exact le_rfl
  · exact hafter x hx

/-- An element that is not greater does not replace the candidate. -/
theorem concat_of_le (h : FirstMax score xs winner) (hx : score x ≤ score winner) :
    FirstMax score (xs ++ [x]) winner := by
  obtain ⟨before, after, rfl, hbefore, hafter⟩ := h
  refine ⟨before, after ++ [x], by rw [List.append_assoc, List.cons_append], hbefore, ?_⟩
  intro y hy
  rcases List.mem_append.mp hy with hy | hy
  · exact hafter y hy
  · exact List.mem_singleton.mp hy ▸ hx

/-- A greater element replaces the candidate. -/
theorem concat_of_lt (h : FirstMax score xs winner) (hx : score winner < score x) :
    FirstMax score (xs ++ [x]) x :=
  ⟨xs, [], rfl, fun _ hy => (h.le hy).trans_lt hx, fun _ hy => absurd hy List.not_mem_nil⟩

end FirstMax

end Library
