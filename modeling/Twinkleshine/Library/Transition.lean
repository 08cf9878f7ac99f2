import Mathlib.Tactic.Common

/-!
# Runs of labelled transition relations

A program that is driven from outside is a relation `step s l t`: in state `s` the stimulus `l` may
lead to `t`. `Runs step` chains steps. An invariant is proved once for a step and holds of every run,
and a refinement is proved once for a step and carries whole runs over.
-/

namespace Library

variable {σ τ ℓ : Type}

/-- A finite run, with the stimuli in order. -/
inductive Runs (step : σ → ℓ → σ → Prop) : σ → List ℓ → σ → Prop where
  | nil (s : σ) : Runs step s [] s
  | cons {s t u : σ} {l : ℓ} {ls : List ℓ} (head : step s l t) (tail : Runs step t ls u) :
      Runs step s (l :: ls) u

namespace Runs

variable {step : σ → ℓ → σ → Prop} {s t u : σ} {ls ms : List ℓ}

/-- What every step preserves, every run preserves. -/
theorem invariant {Inv : σ → Prop} (hrun : Runs step s ls t) (hs : Inv s)
    (hstep : ∀ s l t, Inv s → step s l t → Inv t) : Inv t := by
  induction hrun with
  | nil s => exact hs
  | cons head tail ih => exact ih (hstep _ _ _ hs head)

theorem append (h : Runs step s ls t) (h' : Runs step t ms u) : Runs step s (ls ++ ms) u := by
  induction h with
  | nil s => exact h'
  | cons head tail ih => exact .cons head (ih h')

/-- A run of a relation is one of any that contains it. -/
theorem mono {step' : σ → ℓ → σ → Prop} (h : Runs step s ls t)
    (hsub : ∀ s l t, step s l t → step' s l t) : Runs step' s ls t := by
  induction h with
  | nil s => exact .nil s
  | cons head tail ih => exact .cons (hsub _ _ _ head) ih

/-- Where every step from a state with the invariant is a step of an abstraction, every run is a run of it. -/
theorem simulation {step' : τ → ℓ → τ → Prop} {Inv : σ → Prop} (hrun : Runs step s ls t)
    (abstraction : σ → τ) (hs : Inv s)
    (hstep : ∀ s l t, Inv s → step s l t → Inv t ∧ step' (abstraction s) l (abstraction t)) :
    Inv t ∧ Runs step' (abstraction s) ls (abstraction t) := by
  induction hrun with
  | nil s => exact ⟨hs, .nil _⟩
  | cons head tail ih =>
    obtain ⟨ht, habstract⟩ := hstep _ _ _ hs head
    obtain ⟨hu, hrest⟩ := ih ht
    exact ⟨hu, .cons habstract hrest⟩

/-- A run can end with a step. -/
theorem concat {l : ℓ} (h : Runs step s ls t) (last : step t l u) : Runs step s (ls ++ [l]) u :=
  h.append (.cons last (.nil u))

/-- What holds of every run can be used to show that a step preserves more. -/
theorem invariant_of_runs {Inv : σ → Prop} (hrun : Runs step s ls t) (hs : Inv s)
    (hstep : ∀ ms u l v, Runs step s ms u → Inv u → step u l v → Inv v) : Inv t := by
  have hpreserved : ∀ u l v, (∃ ms, Runs step s ms u) ∧ Inv u → step u l v →
      (∃ ms, Runs step s ms v) ∧ Inv v := by
    rintro u l v ⟨⟨ms, hms⟩, hinv⟩ hlast
    exact ⟨⟨ms ++ [l], hms.concat hlast⟩, hstep ms u l v hms hinv hlast⟩
  exact (hrun.invariant ⟨⟨[], .nil s⟩, hs⟩ hpreserved).2

end Runs

/-- The steps of a relation from states, with stimuli, that meet a condition. -/
def StepsWhere (condition : σ → ℓ → Prop) (step : σ → ℓ → σ → Prop) (s : σ) (l : ℓ) (t : σ) : Prop :=
  condition s l ∧ step s l t

end Library
