import Mathlib.Data.Fintype.Pi
import Mathlib.Data.Fintype.Sum
import Mathlib.Data.List.OfFn
import Mathlib.Logic.Equiv.Fintype
import Mathlib.Probability.Distributions.Uniform

/-!
# Uniform choices and rejection sampling

A uniform choice stays uniform when it is renamed one-to-one (`map_uniformOfFintype`).

Where the outcomes are fewer, values are drawn until one is accepted, and what that one stands for is the
outcome. A draw that is rejected stands for `none`. Two outcomes that equally many draws stand for are the
outcomes of equally many sequences of draws, however long the sequences are (`card_findSome_eq`): there is a
permutation of the draws that exchanges the two and touches nothing else.
-/

namespace Library

open Finset

variable {α β : Type} [Fintype α]

/-- A uniform choice, seen through a bijection. -/
theorem map_uniformOfFintype [Nonempty α] [Fintype β] [Nonempty β] {f : α → β}
    (hf : Function.Bijective f) : (PMF.uniformOfFintype α).map f = PMF.uniformOfFintype β := by
  ext b
  obtain ⟨a, rfl⟩ := hf.surjective b
  rw [PMF.map_apply, tsum_eq_single a, if_pos rfl, PMF.uniformOfFintype_apply,
    PMF.uniformOfFintype_apply, Fintype.card_of_bijective hf]
  intro a' ha'
  exact if_neg fun h => ha' (hf.injective h).symm

variable [DecidableEq β]

/-- The draws that stand for one outcome, mapped to those that stand for another one and back. -/
theorem exists_perm_exchange {accept : α → Option β} {b b' : β}
    (hcard : card {a | accept a = some b} = card {a | accept a = some b'}) :
    ∃ σ : α ≃ α, ∀ a, accept (σ a) = (accept a).map (Equiv.swap b b') := by
  have hfiber : ∀ outcome : Option β,
      card {a | (accept a).map (Equiv.swap b b') = outcome} = card {a | accept a = outcome} := by
    intro outcome
    rcases outcome with _ | c
    · simp only [Option.map_eq_none_iff]
    · have hswap : ∀ a, (accept a).map (Equiv.swap b b') = some c ↔
          accept a = some (Equiv.swap b b' c) := by
        intro a
        rw [Option.map_eq_some_iff]
        constructor
        · rintro ⟨d, hd, rfl⟩
          rw [Equiv.swap_apply_self, hd]
        · intro ha
          exact ⟨_, ha, Equiv.swap_apply_self _ _ _⟩
      simp only [hswap]
      by_cases hb : c = b
      · rw [hb, Equiv.swap_apply_left, hcard]
      · by_cases hb' : c = b'
        · rw [hb', Equiv.swap_apply_right, hcard]
        · rw [Equiv.swap_apply_of_ne_of_ne hb hb']
  have hequiv : ∀ outcome : Option β, Nonempty
      ({a // (accept a).map (Equiv.swap b b') = outcome} ≃ {a // accept a = outcome}) := by
    intro outcome
    rw [← Fintype.card_eq, Fintype.card_subtype, Fintype.card_subtype]
    exact hfiber outcome
  exact ⟨Equiv.ofFiberEquiv fun outcome => (hequiv outcome).some,
    fun a => Equiv.ofFiberEquiv_map _ a⟩

omit [Fintype α] [DecidableEq β] in
/-- The first outcome of draws that are all replaced. -/
theorem findSome_map_of_exchange {accept : α → Option β} {σ : α → α} {f : β → β}
    (hσ : ∀ a, accept (σ a) = (accept a).map f) (draws : List α) :
    (draws.map σ).findSome? accept = (draws.findSome? accept).map f := by
  induction draws with
  | nil => rfl
  | cons a draws ih =>
    rw [List.map_cons, List.findSome?_cons, List.findSome?_cons, hσ]
    cases accept a with
    | none => exact ih
    | some b => rfl

/-- Outcomes of equally many draws are outcomes of equally many sequences of draws. -/
theorem card_findSome_eq {accept : α → Option β} {b b' : β}
    (hcard : card {a | accept a = some b} = card {a | accept a = some b'}) (m : ℕ) :
    card {draws : Fin m → α | (List.ofFn draws).findSome? accept = some b}
      = card {draws : Fin m → α | (List.ofFn draws).findSome? accept = some b'} := by
  obtain ⟨σ, hσ⟩ := exists_perm_exchange hcard
  refine card_equiv ((Equiv.refl (Fin m)).arrowCongr σ) fun draws => ?_
  have hmap : List.ofFn ((Equiv.refl (Fin m)).arrowCongr σ draws) = (List.ofFn draws).map σ := by
    rw [List.map_ofFn]
    rfl
  rw [mem_filter, mem_filter, hmap, findSome_map_of_exchange hσ, Option.map_eq_some_iff]
  refine and_congr ⟨fun _ => mem_univ _, fun _ => mem_univ _⟩ ⟨fun h => ?_, ?_⟩
  · exact ⟨b, h, Equiv.swap_apply_left b b'⟩
  · rintro ⟨c, hc, hswap⟩
    have hcb : c = b :=
      (Equiv.swap b b').injective (hswap.trans (Equiv.swap_apply_left b b').symm)
    rw [hc, hcb]

end Library
