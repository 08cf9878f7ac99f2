import Twinkleshine.Library.Outcome

/-!
# Two computations side by side

What a computation does not look at may be changed before it or after it. `Outcome.Alike g P x y` says so of
two computations: `y` starts where `g` has changed the state, and ends as `x` does with the same change. The
rules follow the combinators, so that a program is compared with itself part by part, and the invariant `P`
is carried along for the parts that rely on it.
-/

namespace Library

namespace Outcome

variable {ε ε' σ τ α β : Type} {P : σ → Prop}

/-- The computation `y` goes as `x` does, from a state that is changed by `g`, and ends in the state of `x`
with the same change; `P` holds of the state `x` ends in. -/
structure Alike (g : σ → τ) (P : σ → Prop) (x : Outcome ε σ α) (y : Outcome ε τ α) : Prop where
  eq : y = x.mapState g
  keeps : x.Keeps P

namespace Alike

variable {σ' τ' : Type} {g : σ → τ} {g' : σ' → τ'} {Q : σ' → Prop}

theorem ok {s : σ} (h : P s) (a : α) : Alike g P (.ok a s : Outcome ε σ α) (.ok a (g s)) := ⟨rfl, h⟩

theorem error {s : σ} (h : P s) (e : ε) : Alike g P (.error e s : Outcome ε σ α) (.error e (g s)) :=
  ⟨rfl, h⟩

theorem hang : Alike g P (.hang : Outcome ε σ α) .hang := ⟨rfl, trivial⟩

/-- The rule of sequencing with a handler. -/
theorem handle {x : Outcome ε σ α} {y : Outcome ε τ α} {failed : ε → σ → Outcome ε' σ' β}
    {failed' : ε → τ → Outcome ε' τ' β} {f : α → σ → Outcome ε' σ' β} {f' : α → τ → Outcome ε' τ' β}
    (h : Alike g P x y) (hf : ∀ a s, P s → Alike g' Q (f a s) (f' a (g s)))
    (hfailed : ∀ e s, P s → Alike g' Q (failed e s) (failed' e (g s))) :
    Alike g' Q (x.handle failed f) (y.handle failed' f') := by
  obtain ⟨rfl, hkeeps⟩ := h
  cases x with
  | ok a s => exact hf a s hkeeps
  | error e s => exact hfailed e s hkeeps
  | hang => exact .hang

/-- The rule of sequencing. -/
theorem andThen {x : Outcome ε σ α} {y : Outcome ε τ α} {f : α → σ → Outcome ε σ β}
    {f' : α → τ → Outcome ε τ β} (h : Alike g P x y)
    (hf : ∀ a s, P s → Alike g P (f a s) (f' a (g s))) : Alike g P (x.andThen f) (y.andThen f') := by
  obtain ⟨rfl, hkeeps⟩ := h
  cases x with
  | ok a s => exact hf a s hkeeps
  | error e s => exact ⟨rfl, hkeeps⟩
  | hang => exact .hang

theorem mapError {x : Outcome ε σ α} {y : Outcome ε τ α} (h : Alike g P x y) (f : ε → ε') :
    Alike g P (x.mapError f) (y.mapError f) := by
  obtain ⟨rfl, hkeeps⟩ := h
  refine ⟨?_, hkeeps.mapError f⟩
  cases x <;> rfl

/-- Computations on a component of a larger state. -/
theorem mapState {x : Outcome ε σ α} {y : Outcome ε τ α} {put : σ → σ'} {put' : τ → τ'}
    (h : Alike g P x y) (hput : ∀ s, P s → put' (g s) = g' (put s)) (hP : ∀ s, P s → Q (put s)) :
    Alike g' Q (x.mapState put) (y.mapState put') := by
  obtain ⟨rfl, hkeeps⟩ := h
  refine ⟨?_, hkeeps.mapState hP⟩
  cases x with
  | ok a s => exact congrArg (Outcome.ok a) (hput s hkeeps)
  | error e s => exact congrArg (Outcome.error e) (hput s hkeeps)
  | hang => rfl

/-- A computation goes as it does. -/
theorem refl {x : Outcome ε σ α} (h : x.Keeps P) : Alike id P x x := by
  refine ⟨?_, h⟩
  cases x <;> rfl

/-- A computation of which nothing is known. -/
theorem same (x : Outcome ε σ α) : Alike id (fun _ => True) x x :=
  refl (meets_of_forall (fun _ _ _ => trivial) fun _ _ _ => trivial)

theorem ofOption {s : σ} (h : P s) (r : Option α) :
    Alike g P (Outcome.ofOption r s : Outcome ε σ α) (Outcome.ofOption r (g s)) := by
  cases r with
  | none => exact hang
  | some a => exact ok h a

theorem ofExcept {s : σ} (h : P s) (r : Except ε α) :
    Alike g P (Outcome.ofExcept r s) (Outcome.ofExcept r (g s)) := by
  cases r with
  | error e => exact error h e
  | ok a => exact ok h a

/-- What the one returns the other returns, too. -/
theorem of_eq_ok {x : Outcome ε σ α} {y : Outcome ε τ α} {a : α} {s : σ} (h : Alike g P x y)
    (hx : x = .ok a s) : y = .ok a (g s) := by
  rw [h.eq, hx]
  rfl

end Alike

end Outcome

end Library
