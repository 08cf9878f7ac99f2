import Mathlib.Tactic.Common

/-!
# Computations that change a state, and may fail or never return

A C function that mutates its arguments and reports an error leaves the arguments changed when it
fails. `Outcome` therefore keeps the state in both cases, and has a third case for a loop that never
ends. `Outcome.Ensures` is total correctness: a computation that hangs ensures nothing.
-/

namespace Library

/-- The result of a computation on states `σ` that returns `α` or fails with `ε`. -/
inductive Outcome (ε σ α : Type) where
  /-- The computation returned. -/
  | ok (value : α) (state : σ)
  /-- The computation failed; `state` is what it left behind. -/
  | error (reason : ε) (state : σ)
  /-- The computation never returns. -/
  | hang
deriving DecidableEq, Repr

namespace Outcome

variable {ε ε' σ τ α β : Type}

/-- Continue a computation that returned. -/
def andThen (r : Outcome ε σ α) (f : α → σ → Outcome ε σ β) : Outcome ε σ β :=
  match r with
  | ok a s => f a s
  | error e s => error e s
  | hang => hang

/-- Change the reason of a failure. -/
def mapError (f : ε → ε') : Outcome ε σ α → Outcome ε' σ α
  | ok a s => ok a s
  | error e s => error (f e) s
  | hang => hang

/-- Run a computation on a component of a larger state. -/
def mapState (put : σ → τ) : Outcome ε σ α → Outcome ε τ α
  | ok a s => ok a (put s)
  | error e s => error e (put s)
  | hang => hang

/-- Continue a computation on a component, also when it failed. -/
def handle (r : Outcome ε σ α) (failed : ε → σ → Outcome ε' τ β) (f : α → σ → Outcome ε' τ β) :
    Outcome ε' τ β :=
  match r with
  | ok a s => f a s
  | error e s => failed e s
  | hang => hang

/-- A computation that only reads the state `s`. -/
def ofExcept (r : Except ε α) (s : σ) : Outcome ε σ α :=
  match r with
  | .ok a => ok a s
  | .error e => error e s

/-- A loop with the state `s`, which is `none` when it never ends. -/
def ofOption (r : Option α) (s : σ) : Outcome ε σ α :=
  match r with
  | some a => ok a s
  | none => hang

@[simp] theorem andThen_ok (a : α) (s : σ) (f : α → σ → Outcome ε σ β) :
    (ok a s).andThen f = f a s := rfl

@[simp] theorem andThen_error (e : ε) (s : σ) (f : α → σ → Outcome ε σ β) :
    (error e s : Outcome ε σ α).andThen f = error e s := rfl

@[simp] theorem andThen_hang (f : α → σ → Outcome ε σ β) :
    (hang : Outcome ε σ α).andThen f = hang := rfl

@[simp] theorem handle_ok (a : α) (s : σ) (failed : ε → σ → Outcome ε' τ β)
    (f : α → σ → Outcome ε' τ β) : (ok a s).handle failed f = f a s := rfl

@[simp] theorem handle_error (e : ε) (s : σ) (failed : ε → σ → Outcome ε' τ β)
    (f : α → σ → Outcome ε' τ β) : (error e s).handle failed f = failed e s := rfl

@[simp] theorem handle_hang (failed : ε → σ → Outcome ε' τ β) (f : α → σ → Outcome ε' τ β) :
    (hang : Outcome ε σ α).handle failed f = hang := rfl

@[simp] theorem mapError_ok (g : ε → ε') (a : α) (s : σ) :
    (ok a s : Outcome ε σ α).mapError g = ok a s := rfl

@[simp] theorem mapError_error (g : ε → ε') (e : ε) (s : σ) :
    (error e s : Outcome ε σ α).mapError g = error (g e) s := rfl

@[simp] theorem mapError_hang (g : ε → ε') : (hang : Outcome ε σ α).mapError g = hang := rfl

@[simp] theorem mapState_ok (put : σ → τ) (a : α) (s : σ) :
    (ok a s : Outcome ε σ α).mapState put = ok a (put s) := rfl

@[simp] theorem mapState_error (put : σ → τ) (e : ε) (s : σ) :
    (error e s : Outcome ε σ α).mapState put = error e (put s) := rfl

@[simp] theorem mapState_hang (put : σ → τ) : (hang : Outcome ε σ α).mapState put = hang := rfl

@[simp] theorem ofExcept_ok (a : α) (s : σ) : (ofExcept (.ok a) s : Outcome ε σ α) = ok a s := rfl

@[simp] theorem ofExcept_error (e : ε) (s : σ) :
    (ofExcept (.error e) s : Outcome ε σ α) = error e s := rfl

@[simp] theorem ofOption_some (a : α) (s : σ) :
    (ofOption (some a) s : Outcome ε σ α) = ok a s := rfl

/-- Sequencing is associative. -/
theorem andThen_assoc {γ : Type} (r : Outcome ε σ α) (f : α → σ → Outcome ε σ β)
    (g : β → σ → Outcome ε σ γ) :
    (r.andThen f).andThen g = r.andThen fun a s => (f a s).andThen g := by
  cases r <;> rfl

/-- A returned sequence returned in both halves. -/
theorem andThen_eq_ok {r : Outcome ε σ α} {f : α → σ → Outcome ε σ β} {b : β} {s : σ} :
    r.andThen f = ok b s ↔ ∃ a t, r = ok a t ∧ f a t = ok b s := by
  cases r <;> simp

/-- A failed sequence failed in its first half or, after that returned, in its second. -/
theorem andThen_eq_error {r : Outcome ε σ α} {f : α → σ → Outcome ε σ β} {e : ε} {s : σ} :
    r.andThen f = error e s ↔ r = error e s ∨ ∃ a t, r = ok a t ∧ f a t = error e s := by
  cases r <;> simp

theorem mapError_eq_ok {r : Outcome ε σ α} {g : ε → ε'} {a : α} {s : σ} :
    r.mapError g = ok a s ↔ r = ok a s := by
  cases r <;> simp

theorem mapError_eq_error {r : Outcome ε σ α} {g : ε → ε'} {e : ε'} {s : σ} :
    r.mapError g = error e s ↔ ∃ e', r = error e' s ∧ g e' = e := by
  cases r <;> simp [and_comm]

theorem mapState_eq_ok {r : Outcome ε σ α} {put : σ → τ} {a : α} {t : τ} :
    r.mapState put = ok a t ↔ ∃ s, r = ok a s ∧ put s = t := by
  cases r <;> simp [and_assoc]

theorem mapState_eq_error {r : Outcome ε σ α} {put : σ → τ} {e : ε} {t : τ} :
    r.mapState put = error e t ↔ ∃ s, r = error e s ∧ put s = t := by
  cases r <;> simp [and_assoc]

theorem ofExcept_eq_ok {r : Except ε α} {s t : σ} {a : α} :
    ofExcept r s = ok a t ↔ r = .ok a ∧ s = t := by
  cases r <;> simp [ofExcept]

theorem ofExcept_eq_error {r : Except ε α} {s t : σ} {e : ε} :
    (ofExcept r s : Outcome ε σ α) = error e t ↔ r = .error e ∧ s = t := by
  cases r <;> simp [ofExcept]

/-! ## Total correctness -/

/-- The computation ends: it returns with `post`, or fails with `fail`. -/
def Ensures (r : Outcome ε σ α) (post : α → σ → Prop) (fail : ε → σ → Prop) : Prop :=
  match r with
  | ok a s => post a s
  | error e s => fail e s
  | hang => False

variable {post post' : α → σ → Prop} {fail fail' : ε → σ → Prop}

@[simp] theorem ensures_ok {a : α} {s : σ} : (ok a s).Ensures post fail ↔ post a s := Iff.rfl

@[simp] theorem ensures_error {e : ε} {s : σ} :
    (error e s : Outcome ε σ α).Ensures post fail ↔ fail e s := Iff.rfl

@[simp] theorem not_ensures_hang : ¬ (hang : Outcome ε σ α).Ensures post fail := id

/-- The rule of consequence. -/
theorem Ensures.mono {r : Outcome ε σ α} (h : r.Ensures post fail)
    (hpost : ∀ a s, post a s → post' a s) (hfail : ∀ e s, fail e s → fail' e s) :
    r.Ensures post' fail' := by
  cases r with
  | ok a s => exact hpost a s h
  | error e s => exact hfail e s h
  | hang => exact h

/-- What is ensured twice is ensured together. -/
theorem Ensures.and {r : Outcome ε σ α} (h : r.Ensures post fail) (h' : r.Ensures post' fail') :
    r.Ensures (fun a s => post a s ∧ post' a s) fun e s => fail e s ∧ fail' e s := by
  cases r with
  | ok a s => exact ⟨h, h'⟩
  | error e s => exact ⟨h, h'⟩
  | hang => exact h

/-- The rule of sequencing: the middle assertion is the first computation's postcondition. -/
theorem Ensures.andThen {r : Outcome ε σ α} {f : α → σ → Outcome ε σ β} {post₂ : β → σ → Prop}
    (h : r.Ensures post fail) (hf : ∀ a s, post a s → (f a s).Ensures post₂ fail')
    (hfail : ∀ e s, fail e s → fail' e s) : (r.andThen f).Ensures post₂ fail' := by
  cases r with
  | ok a s => exact hf a s h
  | error e s => exact hfail e s h
  | hang => exact h

/-- The rule of sequencing with a handler. -/
theorem Ensures.handle {r : Outcome ε σ α} {failed : ε → σ → Outcome ε' τ β}
    {f : α → σ → Outcome ε' τ β} {post₂ : β → τ → Prop} {fail₂ : ε' → τ → Prop}
    (h : r.Ensures post fail) (hf : ∀ a s, post a s → (f a s).Ensures post₂ fail₂)
    (hfailed : ∀ e s, fail e s → (failed e s).Ensures post₂ fail₂) :
    (r.handle failed f).Ensures post₂ fail₂ := by
  cases r with
  | ok a s => exact hf a s h
  | error e s => exact hfailed e s h
  | hang => exact h

theorem Ensures.mapError {r : Outcome ε σ α} (h : r.Ensures post fail) (g : ε → ε') :
    (r.mapError g).Ensures post fun e s => ∃ e', e = g e' ∧ fail e' s := by
  cases r with
  | ok a s => exact h
  | error e s => exact ⟨e, rfl, h⟩
  | hang => exact h

theorem Ensures.mapState {r : Outcome ε σ α} (h : r.Ensures post fail) (put : σ → τ) :
    (r.mapState put).Ensures (fun a t => ∃ s, t = put s ∧ post a s)
      fun e t => ∃ s, t = put s ∧ fail e s := by
  cases r with
  | ok a s => exact ⟨s, rfl, h⟩
  | error e s => exact ⟨s, rfl, h⟩
  | hang => exact h

/-- A computation that ensures nothing of its failures returns. -/
theorem Ensures.exists_ok {r : Outcome ε σ α} (h : r.Ensures post fun _ _ => False) :
    ∃ a s, r = ok a s ∧ post a s := by
  cases r with
  | ok a s => exact ⟨a, s, rfl, h⟩
  | error e s => exact h.elim
  | hang => exact h.elim

/-- What a computation ensures holds of the state it returned. -/
theorem Ensures.of_eq_ok {r : Outcome ε σ α} {a : α} {s : σ} (h : r.Ensures post fail)
    (hr : r = ok a s) : post a s := by
  subst hr
  exact h

/-- What a computation ensures holds of the state it failed in. -/
theorem Ensures.of_eq_error {r : Outcome ε σ α} {e : ε} {s : σ} (h : r.Ensures post fail)
    (hr : r = error e s) : fail e s := by
  subst hr
  exact h

/-- Whether the computation returns in a state that passes the check. -/
def returnsIn (r : Outcome ε σ α) (check : σ → Bool) : Bool :=
  match r with
  | ok _ s => check s
  | error _ _ => false
  | hang => false

theorem exists_of_returnsIn {r : Outcome ε σ α} {check : σ → Bool} (h : r.returnsIn check = true) :
    ∃ a s, r = ok a s ∧ check s = true := by
  cases r with
  | ok a s => exact ⟨a, s, rfl, h⟩
  | error e s => cases h
  | hang => cases h

/-- Whether the computation fails with a reason and a state that pass the check. -/
def failsIn (r : Outcome ε σ α) (check : ε → σ → Bool) : Bool :=
  match r with
  | ok _ _ => false
  | error e s => check e s
  | hang => false

theorem exists_of_failsIn {r : Outcome ε σ α} {check : ε → σ → Bool} (h : r.failsIn check = true) :
    ∃ e s, r = error e s ∧ check e s = true := by
  cases r with
  | ok a s => cases h
  | error e s => exact ⟨e, s, rfl, h⟩
  | hang => cases h

/-- What is ensured, together with how the computation ended. -/
theorem Ensures.with_eq {r : Outcome ε σ α} (h : r.Ensures post fail) :
    r.Ensures (fun a s => post a s ∧ r = ok a s) fun e s => fail e s ∧ r = error e s := by
  cases r with
  | ok a s => exact ⟨h, rfl⟩
  | error e s => exact ⟨h, rfl⟩
  | hang => exact h

/-! ## Partial correctness -/

/-- The computation returns with `post`, fails with `fail`, or never ends, which it may only where
`hung` holds. With `hung := False` this is total correctness. -/
def Meets (r : Outcome ε σ α) (hung : Prop) (post : α → σ → Prop) (fail : ε → σ → Prop) : Prop :=
  match r with
  | ok a s => post a s
  | error e s => fail e s
  | hang => hung

variable {hung : Prop}

@[simp] theorem meets_ok {a : α} {s : σ} : (ok a s).Meets hung post fail ↔ post a s := Iff.rfl

@[simp] theorem meets_error {e : ε} {s : σ} :
    (error e s : Outcome ε σ α).Meets hung post fail ↔ fail e s := Iff.rfl

@[simp] theorem meets_hang : (hang : Outcome ε σ α).Meets hung post fail ↔ hung := Iff.rfl

theorem meets_false {r : Outcome ε σ α} : r.Meets False post fail ↔ r.Ensures post fail := by
  cases r <;> rfl

theorem Ensures.meets {r : Outcome ε σ α} (h : r.Ensures post fail) (hung : Prop) :
    r.Meets hung post fail := by
  cases r with
  | ok a s => exact h
  | error e s => exact h
  | hang => exact h.elim

/-- The rule of consequence. -/
theorem Meets.mono {r : Outcome ε σ α} (h : r.Meets hung post fail)
    (hpost : ∀ a s, post a s → post' a s) (hfail : ∀ e s, fail e s → fail' e s) :
    r.Meets hung post' fail' := by
  cases r with
  | ok a s => exact hpost a s h
  | error e s => exact hfail e s h
  | hang => exact h

/-- The rule of sequencing. -/
theorem Meets.andThen {r : Outcome ε σ α} {f : α → σ → Outcome ε σ β} {post₂ : β → σ → Prop}
    (h : r.Meets hung post fail) (hf : ∀ a s, post a s → (f a s).Meets hung post₂ fail')
    (hfail : ∀ e s, fail e s → fail' e s) : (r.andThen f).Meets hung post₂ fail' := by
  cases r with
  | ok a s => exact hf a s h
  | error e s => exact hfail e s h
  | hang => exact h

/-- The rule of sequencing with a handler. -/
theorem Meets.handle {r : Outcome ε σ α} {failed : ε → σ → Outcome ε' τ β}
    {f : α → σ → Outcome ε' τ β} {post₂ : β → τ → Prop} {fail₂ : ε' → τ → Prop}
    (h : r.Meets hung post fail) (hf : ∀ a s, post a s → (f a s).Meets hung post₂ fail₂)
    (hfailed : ∀ e s, fail e s → (failed e s).Meets hung post₂ fail₂) :
    (r.handle failed f).Meets hung post₂ fail₂ := by
  cases r with
  | ok a s => exact hf a s h
  | error e s => exact hfailed e s h
  | hang => exact h

theorem Meets.mapError {r : Outcome ε σ α} (h : r.Meets hung post fail) (g : ε → ε') :
    (r.mapError g).Meets hung post fun e s => ∃ e', e = g e' ∧ fail e' s := by
  cases r with
  | ok a s => exact h
  | error e s => exact ⟨e, rfl, h⟩
  | hang => exact h

theorem Meets.mapState {r : Outcome ε σ α} (h : r.Meets hung post fail) (put : σ → τ) :
    (r.mapState put).Meets hung (fun a t => ∃ s, t = put s ∧ post a s)
      fun e t => ∃ s, t = put s ∧ fail e s := by
  cases r with
  | ok a s => exact ⟨s, rfl, h⟩
  | error e s => exact ⟨s, rfl, h⟩
  | hang => exact h

/-- What a computation meets holds of the state it returned. -/
theorem Meets.of_eq_ok {r : Outcome ε σ α} {a : α} {s : σ} (h : r.Meets hung post fail)
    (hr : r = ok a s) : post a s := by
  subst hr
  exact h

/-- What a computation meets holds of the state it failed in. -/
theorem Meets.of_eq_error {r : Outcome ε σ α} {e : ε} {s : σ} (h : r.Meets hung post fail)
    (hr : r = error e s) : fail e s := by
  subst hr
  exact h

/-- What is proved of the states a computation ends in is met, if it may hang. -/
theorem meets_of_forall {r : Outcome ε σ α} (hpost : ∀ a s, r = ok a s → post a s)
    (hfail : ∀ e s, r = error e s → fail e s) : r.Meets True post fail := by
  cases r with
  | ok a s => exact hpost a s rfl
  | error e s => exact hfail e s rfl
  | hang => trivial

/-- A computation on a component changes that component. -/
theorem meets_mapState (r : Outcome ε σ α) (put : σ → τ) :
    (r.mapState put).Meets True (fun _ t => ∃ s, t = put s) fun _ t => ∃ s, t = put s := by
  cases r with
  | ok a s => exact ⟨s, rfl⟩
  | error e s => exact ⟨s, rfl⟩
  | hang => exact trivial

/-- A computation that may hang in fewer cases. -/
theorem Meets.of_imp {hung' : Prop} {r : Outcome ε σ α} (h : r.Meets hung post fail)
    (himp : hung → hung') : r.Meets hung' post fail := by
  cases r with
  | ok a s => exact h
  | error e s => exact h
  | hang => exact himp h

/-- The computation ends in a state, whether it returned or failed. -/
def Ends (r : Outcome ε σ α) (s : σ) : Prop := (∃ a, r = ok a s) ∨ ∃ e, r = error e s

/-- What is met in both cases holds where the computation ends. -/
theorem Meets.of_ends {P : σ → Prop} {r : Outcome ε σ α} {s : σ}
    (h : r.Meets hung (fun _ t => P t) fun _ t => P t) (hr : r.Ends s) : P s := by
  obtain ⟨a, rfl⟩ | ⟨e, rfl⟩ := hr
  · exact h
  · exact h

/-! ## Frames -/

/-- Wherever the computation ends, `P` holds of the state. -/
def Keeps (r : Outcome ε σ α) (P : σ → Prop) : Prop := r.Meets True (fun _ t => P t) fun _ t => P t

variable {P P' : σ → Prop}

theorem Keeps.mono {r : Outcome ε σ α} (h : r.Keeps P) (himp : ∀ t, P t → P' t) : r.Keeps P' :=
  Meets.mono h (fun _ => himp) fun _ => himp

theorem Keeps.andThen {r : Outcome ε σ α} {f : α → σ → Outcome ε σ β} (h : r.Keeps P)
    (hf : ∀ a t, P t → (f a t).Keeps P') (himp : ∀ t, P t → P' t) : (r.andThen f).Keeps P' :=
  Meets.andThen h hf fun _ => himp

theorem Keeps.handle {Q : τ → Prop} {r : Outcome ε σ α} {failed : ε → σ → Outcome ε' τ β}
    {f : α → σ → Outcome ε' τ β} (h : r.Keeps P) (hf : ∀ a t, P t → (f a t).Keeps Q)
    (hfailed : ∀ e t, P t → (failed e t).Keeps Q) : (r.handle failed f).Keeps Q :=
  Meets.handle h hf hfailed

theorem Keeps.mapError {r : Outcome ε σ α} (h : r.Keeps P) (g : ε → ε') : (r.mapError g).Keeps P := by
  cases r with
  | ok a s => exact h
  | error e s => exact h
  | hang => exact h

theorem Keeps.mapState {Q : τ → Prop} {put : σ → τ} {r : Outcome ε σ α} (h : r.Keeps P)
    (hput : ∀ t, P t → Q (put t)) : (r.mapState put).Keeps Q := by
  cases r with
  | ok a s => exact hput s h
  | error e s => exact hput s h
  | hang => exact h

/-- A computation on a component, of which nothing is known. -/
theorem keeps_mapState {Q : τ → Prop} {put : σ → τ} (r : Outcome ε σ α) (hput : ∀ t, Q (put t)) :
    (r.mapState put).Keeps Q := by
  cases r with
  | ok a s => exact hput s
  | error e s => exact hput s
  | hang => exact trivial

theorem Keeps.of_ends {r : Outcome ε σ α} {s : σ} (h : r.Keeps P) (hr : r.Ends s) : P s :=
  Meets.of_ends h hr

/-- Whoever meets two specifications meets both at once, and hangs only where neither forbids it. -/
theorem Meets.and {hung' : Prop} {post' : α → σ → Prop} {fail' : ε → σ → Prop} {r : Outcome ε σ α}
    (h : r.Meets hung post fail) (h' : r.Meets hung' post' fail') :
    r.Meets hung (fun a s => post a s ∧ post' a s) fun e s => fail e s ∧ fail' e s := by
  cases r with
  | ok a s => exact ⟨h, h'⟩
  | error e s => exact ⟨h, h'⟩
  | hang => exact h

/-- The frame rule: what is kept holds beside what is met. -/
theorem Meets.frame {r : Outcome ε σ α} (h : r.Meets hung post fail) (hkeeps : r.Keeps P) :
    r.Meets hung (fun a s => post a s ∧ P s) fun e s => fail e s ∧ P s :=
  h.and hkeeps

theorem Ensures.frame {r : Outcome ε σ α} (h : r.Ensures post fail) (hkeeps : r.Keeps P) :
    r.Ensures (fun a s => post a s ∧ P s) fun e s => fail e s ∧ P s :=
  meets_false.mp ((meets_false.mpr h).frame hkeeps)

/-! ## Partial correctness -/

/-- If the computation returns, `post` holds. -/
def Yields (r : Outcome ε σ α) (post : α → σ → Prop) : Prop := r.Meets True post fun _ _ => True

theorem Meets.yields {r : Outcome ε σ α} (h : r.Meets hung post fail) : r.Yields post :=
  (h.of_imp fun _ => trivial).mono (fun _ _ => id) fun _ _ _ => trivial

theorem Ensures.yields {r : Outcome ε σ α} (h : r.Ensures post fail) : r.Yields post :=
  (h.meets True).yields

theorem yields_of_forall {r : Outcome ε σ α} (h : ∀ a s, r = ok a s → post a s) : r.Yields post :=
  meets_of_forall h fun _ _ _ => trivial

theorem Yields.mono {r : Outcome ε σ α} (h : r.Yields post) (himp : ∀ a s, post a s → post' a s) :
    r.Yields post' :=
  Meets.mono h himp fun _ _ => id

theorem Yields.and {r : Outcome ε σ α} (h : r.Yields post) (h' : r.Yields post') :
    r.Yields fun a s => post a s ∧ post' a s :=
  (Meets.and h h').mono (fun _ _ => id) fun _ _ _ => trivial

theorem Yields.andThen {r : Outcome ε σ α} {f : α → σ → Outcome ε σ β} {post₂ : β → σ → Prop}
    (h : r.Yields post) (hf : ∀ a s, post a s → (f a s).Yields post₂) : (r.andThen f).Yields post₂ :=
  Meets.andThen h hf fun _ _ => id

theorem Yields.mapError {r : Outcome ε σ α} (h : r.Yields post) (g : ε → ε') :
    (r.mapError g).Yields post :=
  (Meets.mapError h g).mono (fun _ _ => id) fun _ _ _ => trivial

theorem Yields.mapState {post₂ : α → τ → Prop} {put : σ → τ} {r : Outcome ε σ α} (h : r.Yields post)
    (hput : ∀ a s, post a s → post₂ a (put s)) : (r.mapState put).Yields post₂ := by
  cases r with
  | ok a s => exact hput a s h
  | error e s => exact trivial
  | hang => exact trivial

theorem Yields.of_eq_ok {r : Outcome ε σ α} {a : α} {s : σ} (h : r.Yields post) (hr : r = ok a s) :
    post a s :=
  Meets.of_eq_ok h hr

end Outcome

/-! ## Computations without a state -/

section

variable {ε α β : Type}

theorem bind_eq_ok {r : Except ε α} {f : α → Except ε β} {b : β} :
    r.bind f = .ok b ↔ ∃ a, r = .ok a ∧ f a = .ok b := by
  cases r <;> simp [Except.bind]

theorem map_eq_ok {r : Except ε α} {f : α → β} {b : β} :
    r.map f = .ok b ↔ ∃ a, r = .ok a ∧ f a = b := by
  cases r <;> simp [Except.map]

/-- A loop that returned went on from what its first round returned. -/
theorem foldlM_cons_eq_ok {f : β → α → Except ε β} {init last : β} {a : α} {as : List α} :
    (a :: as).foldlM f init = .ok last ↔ ∃ next, f init a = .ok next ∧ as.foldlM f next = .ok last := by
  rw [List.foldlM_cons]
  exact bind_eq_ok

end

end Library
