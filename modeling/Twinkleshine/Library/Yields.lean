import Mathlib.Data.List.Basic

/-!
# What a computation that may fail yields

`Yields` says of a computation in `Except` what holds of its result, and what holds of its error when it
fails. The rules follow the ways such computations are put together.
-/

namespace Library

variable {ε α β : Type} {post : α → Prop} {fail : ε → Prop}

/-- The computation returns something with `post`, or fails with `fail`. -/
def Yields (r : Except ε α) (post : α → Prop) (fail : ε → Prop) : Prop :=
  match r with
  | .ok a => post a
  | .error e => fail e

theorem Yields.mono {r : Except ε α} {post' : α → Prop} (h : Yields r post fail)
    (hpost : ∀ a, post a → post' a) : Yields r post' fail := by
  cases r with
  | ok a => exact hpost a h
  | error e => exact h

/-- What holds of every result holds of the result. -/
theorem Yields.of_forall_ok {r : Except ε α} {post' : α → Prop} (h : Yields r post fail)
    (hpost : ∀ a, r = .ok a → post' a) : Yields r post' fail := by
  cases r with
  | ok a => exact hpost a rfl
  | error e => exact h

theorem Yields.imp_fail {r : Except ε α} {fail' : ε → Prop} (h : Yields r post fail)
    (hfail : ∀ e, fail e → fail' e) : Yields r post fail' := by
  cases r with
  | ok a => exact h
  | error e => exact hfail e h

theorem Yields.map {r : Except ε α} {f : α → β} {post' : β → Prop} (h : Yields r post fail)
    (hpost : ∀ a, post a → post' (f a)) : Yields (r.map f) post' fail := by
  cases r with
  | ok a => exact hpost a h
  | error e => exact h

theorem Yields.bind {r : Except ε α} {f : α → Except ε β} {post' : β → Prop} (h : Yields r post fail)
    (hf : ∀ a, post a → Yields (f a) post' fail) : Yields (r.bind f) post' fail := by
  cases r with
  | ok a => exact hf a h
  | error e => exact h

/-- A loop goes on from what its first round yields. -/
theorem Yields.foldlM_cons {f : β → α → Except ε β} {init : β} {a : α} {as : List α}
    {post post' : β → Prop} (h : Yields (f init a) post fail)
    (hrest : ∀ b, post b → Yields (as.foldlM f b) post' fail) :
    Yields ((a :: as).foldlM f init) post' fail := by
  rw [List.foldlM_cons]
  exact h.bind hrest

end Library
