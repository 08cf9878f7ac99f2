import Twinkleshine.Library.Outcome
import Mathlib.Data.List.TakeWhile

/-!
# Resumable scanners

A scanner reads a part of a stream element by element through a step function on its state. A step
is told how many elements the part still has, itself included. It answers `next` to have the element
counted and the following one read, or `halt` to leave the part.

`Consumes` is the run of a scanner in which every element is answered with `next`, whatever else the
part holds. Such runs do not depend on how the stream is cut into parts.
-/

namespace Library

/-- How a step goes on. -/
inductive Flow where
  /-- Count the element and read the following one. -/
  | next
  /-- Leave the part without counting the element. -/
  | halt
deriving DecidableEq, Repr

variable {ε κ σ : Type}

/-- Scan a part: `bump` counts the element after a step that goes on. -/
def scan (step : ℕ → κ → σ → Outcome ε σ Flow) (bump : σ → σ) : List κ → σ → Outcome ε σ Unit
  | [], s => .ok () s
  | c :: cs, s =>
    (step (cs.length + 1) c s).andThen fun flow s =>
      match flow with
      | .next => scan step bump cs (bump s)
      | .halt => .ok () s

/-- The elements of a part that are counted, each with the state it is counted in. -/
def scanned (step : ℕ → κ → σ → Outcome ε σ Flow) (bump : σ → σ) : List κ → σ → List (σ × κ)
  | [], _ => []
  | c :: cs, s =>
    match step (cs.length + 1) c s with
    | .ok .next t => (s, c) :: scanned step bump cs (bump t)
    | _ => []

/-- The scanner counts all of the elements, wherever the part ends. -/
inductive Consumes (step : ℕ → κ → σ → Outcome ε σ Flow) (bump : σ → σ) : List κ → σ → σ → Prop where
  | nil (s : σ) : Consumes step bump [] s s
  | cons {c : κ} {cs : List κ} {s t u : σ} (head : ∀ available, step available c s = .ok .next t)
      (tail : Consumes step bump cs (bump t) u) : Consumes step bump (c :: cs) s u

section

variable {step step' : ℕ → κ → σ → Outcome ε σ Flow} {bump : σ → σ}

@[simp] theorem scan_nil (s : σ) : scan step bump [] s = .ok () s := rfl

theorem scanned_next {c : κ} {cs : List κ} {s t : σ} (h : step (cs.length + 1) c s = .ok .next t) :
    scanned step bump (c :: cs) s = (s, c) :: scanned step bump cs (bump t) := by
  rw [scanned, h]

theorem scanned_halt {c : κ} {cs : List κ} {s t : σ} (h : step (cs.length + 1) c s = .ok .halt t) :
    scanned step bump (c :: cs) s = [] := by
  rw [scanned, h]

/-! ## Invariants of a part -/

/-- The rule of a part: an invariant that may speak of the number of elements left. -/
theorem scan_ensures (Inv : ℕ → σ → Prop) {post : σ → Prop} {fail : ε → σ → Prop}
    (hstep : ∀ n c s, Inv (n + 1) s → (step (n + 1) c s).Ensures
      (fun flow t => match flow with | .next => Inv n (bump t) | .halt => post t) fail)
    (hend : ∀ s, Inv 0 s → post s) (cs : List κ) {s : σ} (hs : Inv cs.length s) :
    (scan step bump cs s).Ensures (fun _ t => post t) fail := by
  induction cs generalizing s with
  | nil => exact hend s hs
  | cons c cs ih =>
    refine (hstep cs.length c s hs).andThen (fun flow t ht => ?_) fun _ _ he => he
    cases flow with
    | next => exact ih ht
    | halt => exact ht

/-- Two scanners whose steps agree wherever the invariant holds scan alike. -/
theorem scan_congr (Inv : ℕ → σ → Prop)
    (hstep : ∀ n c s, Inv (n + 1) s → step (n + 1) c s = step' (n + 1) c s ∧
      ∀ t, step (n + 1) c s = .ok .next t → Inv n (bump t))
    (cs : List κ) {s : σ} (hs : Inv cs.length s) : scan step bump cs s = scan step' bump cs s := by
  induction cs generalizing s with
  | nil => rfl
  | cons c cs ih =>
    obtain ⟨heq, hnext⟩ := hstep cs.length c s hs
    rw [scan, scan, ← heq]
    cases hr : step (cs.length + 1) c s with
    | ok flow t =>
      cases flow with
      | next => exact ih (hnext t hr)
      | halt => rfl
    | error e t => rfl
    | hang => rfl

/-! ## Runs that do not see the end of the part -/

/-- Scanning what is consumed and what follows it. -/
theorem Consumes.scan_append {cs : List κ} {s t : σ} (h : Consumes step bump cs s t) (ds : List κ) :
    scan step bump (cs ++ ds) s = scan step bump ds t := by
  induction h with
  | nil s => rfl
  | cons head tail ih => rw [List.cons_append, scan, head, Outcome.andThen_ok, ih]

theorem Consumes.scan_eq {cs : List κ} {s t : σ} (h : Consumes step bump cs s t) :
    scan step bump cs s = .ok () t := by
  simpa using h.scan_append []

theorem Consumes.append {cs ds : List κ} {s t u : σ} (h : Consumes step bump cs s t)
    (h' : Consumes step bump ds t u) : Consumes step bump (cs ++ ds) s u := by
  induction h with
  | nil s => exact h'
  | cons head tail ih => exact .cons head (ih h')

/-- A consumed stream can be cut anywhere. -/
theorem Consumes.of_append {cs ds : List κ} {s u : σ} (h : Consumes step bump (cs ++ ds) s u) :
    ∃ t, Consumes step bump cs s t ∧ Consumes step bump ds t u := by
  induction cs generalizing s with
  | nil => exact ⟨s, .nil s, h⟩
  | cons c cs ih =>
    cases h with
    | cons head tail =>
      obtain ⟨t, hcs, hds⟩ := ih tail
      exact ⟨t, .cons head hcs, hds⟩

theorem Consumes.single {c : κ} {s t : σ} (h : ∀ available, step available c s = .ok .next t) :
    Consumes step bump [c] s (bump t) := .cons h (.nil _)

/-- Two scanners whose steps agree wherever the invariant holds consume alike. -/
theorem Consumes.congr (Inv : ℕ → σ → Prop)
    (hstep : ∀ n c s, Inv (n + 1) s → (∀ available, step available c s = step' available c s) ∧
      ∀ t, step (n + 1) c s = .ok .next t → Inv n (bump t))
    {cs : List κ} {s t : σ} (h : Consumes step bump cs s t) (hs : Inv cs.length s) :
    Consumes step' bump cs s t := by
  induction h with
  | nil s => exact .nil s
  | cons head tail ih =>
    obtain ⟨heq, hnext⟩ := hstep _ _ _ hs
    exact .cons (fun available => (heq available).symm.trans (head available))
      (ih (hnext _ (head _)))

/-- A part that was scanned was consumed, or left at an element that was answered with `halt`. This
holds of scanners whose answer `next` does not depend on the elements that are left. -/
theorem Consumes.of_scan
    (hnext : ∀ n c s t, step n c s = .ok .next t → ∀ available, step available c s = .ok .next t)
    {cs : List κ} {s t : σ} (h : scan step bump cs s = .ok () t) :
    Consumes step bump cs s t ∨ ∃ ds c es u, cs = ds ++ c :: es ∧ Consumes step bump ds s u ∧
      step (es.length + 1) c u = .ok .halt t := by
  induction cs generalizing s with
  | nil =>
    obtain ⟨-, rfl⟩ := Outcome.ok.inj h
    exact .inl (.nil _)
  | cons c cs ih =>
    rw [scan, Outcome.andThen_eq_ok] at h
    obtain ⟨flow, u, hstep, hrest⟩ := h
    cases flow with
    | next =>
      have hhead := hnext _ c s u hstep
      obtain hcs | ⟨ds, d, es, v, rfl, hds, hhalt⟩ := ih hrest
      · exact .inl (.cons hhead hcs)
      · exact .inr ⟨c :: ds, d, es, v, rfl, .cons hhead hds, hhalt⟩
    | halt =>
      obtain ⟨-, rfl⟩ := Outcome.ok.inj hrest
      exact .inr ⟨[], c, cs, s, rfl, .nil _, hstep⟩

/-- A stream is consumed in one way. -/
theorem Consumes.unique {cs : List κ} {s t t' : σ} (h : Consumes step bump cs s t)
    (h' : Consumes step bump cs s t') : t = t' :=
  (Outcome.ok.inj (h.scan_eq.symm.trans h'.scan_eq)).2

/-- Consuming a stream whose front is consumed. -/
theorem Consumes.append_iff {cs ds : List κ} {s t u : σ} (h : Consumes step bump cs s u) :
    Consumes step bump (cs ++ ds) s t ↔ Consumes step bump ds u t := by
  refine ⟨fun hall => ?_, h.append⟩
  obtain ⟨u', hcs, hds⟩ := hall.of_append
  exact h.unique hcs ▸ hds

/-- A scanner that stays in a loop on the elements with `p`, which only counts them: it consumes a
stream when it consumes what follows the elements in front that have `p`. -/
theorem Consumes.span_iff {p : κ → Bool} {loop : ℕ → σ}
    (hloop : ∀ n c, p c = true → Consumes step bump [c] (loop n) (loop (n + 1))) {cs : List κ} {n : ℕ}
    {t : σ} : Consumes step bump cs (loop n) t ↔ ∃ run rest, cs = run ++ rest ∧
      (∀ c ∈ run, p c = true) ∧ (∀ c ∈ rest.head?, p c = false) ∧
      Consumes step bump rest (loop (n + run.length)) t := by
  have hrun : ∀ (run : List κ) (n : ℕ), (∀ c ∈ run, p c = true) →
      Consumes step bump run (loop n) (loop (n + run.length)) := by
    intro run
    induction run with
    | nil => exact fun n _ => .nil _
    | cons c run ih =>
      intro n hall
      have hrest := ih (n + 1) fun d hd => hall d (List.mem_cons_of_mem c hd)
      rw [show n + (c :: run).length = n + 1 + run.length by rw [List.length_cons]; omega]
      exact (hloop n c (hall c List.mem_cons_self)).append hrest
  constructor
  · intro h
    refine ⟨cs.takeWhile p, cs.dropWhile p, List.takeWhile_append_dropWhile.symm,
      fun c hc => List.mem_takeWhile_imp hc, fun c hc => ?_, ?_⟩
    · rcases hrest : cs.dropWhile p with _ | ⟨d, rest⟩
      · simp [hrest] at hc
      · have hhead := List.head_dropWhile_not p (show cs.dropWhile p ≠ [] by simp [hrest])
        simp only [hrest, List.head?_cons, Option.mem_some_iff, List.head_cons] at hc hhead
        exact hc ▸ hhead
    · have htake := hrun (cs.takeWhile p) n fun c hc => List.mem_takeWhile_imp hc
      rw [← List.takeWhile_append_dropWhile (p := p) (l := cs)] at h
      exact htake.append_iff.mp h
  · rintro ⟨run, rest, rfl, hall, -, hrest⟩
    exact (hrun run n hall).append hrest

/-- The same of a loop that only the elements with `q` leave. -/
theorem Consumes.span_leave_iff {p q : κ → Bool} {loop leave : ℕ → σ} {t : σ}
    (hloop : ∀ n c, p c = true → Consumes step bump [c] (loop n) (loop (n + 1)))
    (hleave : ∀ n c, q c = true → Consumes step bump [c] (loop n) (leave n))
    (hstop : ∀ n c u, p c = false → q c = false → step 1 c (loop n) ≠ .ok .next u)
    (hpq : ∀ c, q c = true → p c = false) (ht : ∀ n, loop n ≠ t) {cs : List κ} {n : ℕ} :
    Consumes step bump cs (loop n) t ↔ ∃ run c rest, cs = run ++ c :: rest ∧
      (∀ c ∈ run, p c = true) ∧ q c = true ∧
      Consumes step bump rest (leave (n + run.length)) t := by
  rw [Consumes.span_iff hloop]
  constructor
  · rintro ⟨run, rest, rfl, hrun, hrest, hconsumes⟩
    cases hconsumes with
    | nil => exact absurd rfl (ht _)
    | @cons c cs _ u _ head tail =>
      have hp : p c = false := hrest c rfl
      have hq : q c = true := by
        by_contra hq
        exact hstop _ c u hp (Bool.eq_false_iff.mpr hq) (head 1)
      exact ⟨run, c, cs, rfl, hrun, hq, (hleave _ c hq).append_iff.mp (.cons head tail)⟩
  · rintro ⟨run, c, rest, rfl, hrun, hq, hconsumes⟩
    refine ⟨run, c :: rest, rfl, hrun, fun d hd => ?_, (hleave _ c hq).append_iff.mpr hconsumes⟩
    obtain rfl := Option.some.inj hd
    exact hpq c hq

/-- What every counted element preserves, a consumed stream preserves. -/
theorem Consumes.invariant {Inv : σ → Prop} {cs : List κ} {s t : σ}
    (h : Consumes step bump cs s t) (hs : Inv s)
    (hstep : ∀ c s t, Inv s → step 1 c s = .ok .next t → Inv (bump t)) : Inv t := by
  induction h with
  | nil s => exact hs
  | cons head tail ih => exact ih (hstep _ _ _ hs (head 1))

end

end Library
