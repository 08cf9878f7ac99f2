import Twinkleshine.Parser.Lines

/-!
# The languages of Finger

A request of Finger is one line: perhaps the switch `/W` with spaces behind it, and perhaps the name of
a user. Its parser finds both, unless both are there. Reference: `source/parser/finger_parser.c`.
-/

namespace Twinkleshine

open Library

/-! ## Lines -/

/-- The switch with its spaces, or nothing. -/
def IsSwitch (verbose : Bool) (switch : List UInt8) : Prop :=
  if verbose then ∃ spaces, 0 < spaces ∧ switch = ascii "/W" ++ List.replicate spaces 32
  else switch = []

/-- A line of Finger. -/
def FingerLine (w : List UInt8) (verbose : Bool) (user : List UInt8) : Prop :=
  (∀ c ∈ user, c ≠ 13 ∧ c ≠ 10) ∧ (∀ c ∈ user.head?, c ≠ 32 ∧ c ≠ 47) ∧
    ∃ switch, IsSwitch verbose switch ∧ ∃ e ≠ LineEnd.cr, w = switch ++ (user ++ e.bytes)

/-- The request has ended exactly behind the last byte of the line, and its fields are those of the
line. -/
structure FingerParsed (w : List UInt8) (verbose : Bool) (user : List UInt8) (s : Progress) :
    Prop where
  ends : s.parser.state = .end
  streamSize : s.request.streamSize = w.length
  method : Selects w s.request.method (if verbose then ascii "/W" else [])
  resource : Selects w s.request.resource user

/-- Successive calls of a parser function on the parts of a stream. -/
def parserParts (parser : List UInt8 → Progress → Outcome ExError Progress Unit) :
    List (List UInt8) → Progress → Outcome ExError Progress Unit
  | [], s => .ok () s
  | part :: parts, s => (parser part s).andThen fun _ s => parserParts parser parts s

/-- A stream that is counted whatever the parts are is counted part by part. -/
theorem Resumes.parts {Inv : Progress → Prop} {initial : ParserState} {step : Lookup → ParserStep}
    (hp : Resumes Inv initial step) (lookup : Lookup) {parts : List (List UInt8)} {s t : Progress}
    (h : Consumes (step lookup) Progress.bump parts.flatten (s.begin initial) t) :
    ∃ u, parserParts (parsePart initial (step lookup)) parts s = .ok () u ∧ u.begin initial = t := by
  induction parts generalizing s with
  | nil =>
    cases h
    exact ⟨s, rfl, rfl⟩
  | cons part parts ih =>
    rw [List.flatten_cons] at h
    obtain ⟨u, hpart, hrest⟩ := h.of_append
    have hu : u.begin initial = u := Progress.begin_of_ne (hp.ne_begin hpart) initial
    obtain ⟨v, hv, rfl⟩ := ih (hu.symm ▸ hrest)
    exact ⟨v, by rw [parserParts, parsePart, hpart.scan_eq, Outcome.andThen_ok, hv], rfl⟩

/-! ## The parser -/

/-- `n` bytes of a user name were counted after `s`. -/
def Progress.userTaken (s : Progress) (n : ℕ) : Progress :=
  ({ s with request.resource.size := n, parser.state := .waitResourceEnd } : Progress).advance n

theorem fingerUser {user : List UInt8} (huser : ∀ c ∈ user, c ≠ 13 ∧ c ≠ 10) (s : Progress) (n : ℕ) :
    Consumes parserParseFingerStep Progress.bump user (s.userTaken n)
      (s.userTaken (n + user.length)) := by
  induction user generalizing n with
  | nil => exact .nil _
  | cons c user ih =>
    rw [List.forall_mem_cons] at huser
    have hstep : ∀ available, parserParseFingerStep available c (s.userTaken n) = .ok .next
        (({ s with request.resource.size := n + 1, parser.state := .waitResourceEnd } :
          Progress).advance n) := by
      intro available
      simp [parserParseFingerStep, Progress.userTaken, Progress.advance, huser.1]
    have hrest := ih huser.2 (n + 1)
    rw [show n + (c :: user).length = n + 1 + user.length by rw [List.length_cons]; omega]
    exact .cons hstep hrest

/-- The line ends wherever its user name may end. -/
theorem fingerEnd {e : LineEnd} (he : e ≠ .cr) {s : Progress}
    (hs : s.parser.state = .waitMethodBegin ∨ s.parser.state = .waitResourceBegin ∨
      s.parser.state = .waitResourceEnd) :
    Consumes parserParseFingerStep Progress.bump e.bytes s (s.close e) := by
  cases e with
  | crlf =>
    refine .cons (t := { s with parser.state := .waitFinalLineLf }) (fun available => ?_)
      (.cons (t := ({ s with parser.state := .end } : Progress).bump) (fun available => ?_) (.nil _))
    · rcases hs with hs | hs | hs <;> simp [parserParseFingerStep, hs]
    · rfl
  | lf =>
    refine .cons (t := { s with parser.toleratedLf := true, parser.state := .end })
      (fun available => ?_) (.nil _)
    rcases hs with hs | hs | hs <;> simp [parserParseFingerStep, hs]
  | cr => exact absurd rfl he

theorem fingerSpaces (s : Progress) (spaces n : ℕ) :
    Consumes parserParseFingerStep Progress.bump (List.replicate spaces 32)
      (s.passed .waitResourceBegin n) (s.passed .waitResourceBegin (n + spaces)) := by
  induction spaces generalizing n with
  | zero => exact .nil _
  | succ spaces ih =>
    have hrest := ih (n + 1)
    rw [show n + (spaces + 1) = n + 1 + spaces by omega, List.replicate_succ]
    exact .cons (t := s.passed .waitResourceBegin n) (fun _ => rfl) hrest

/-- The switch and its spaces. -/
theorem fingerSwitch (spaces : ℕ) :
    Consumes parserParseFingerStep Progress.bump (ascii "/W" ++ List.replicate spaces 32)
      (Progress.zero.begin .waitMethodBegin)
      (({ Progress.zero with request.method.size := 2 } : Progress).passed .waitResourceBegin
        (2 + spaces)) := by
  have hswitch : Consumes parserParseFingerStep Progress.bump (ascii "/W")
      (Progress.zero.begin .waitMethodBegin)
      (({ Progress.zero with request.method.size := 2 } : Progress).passed .waitResourceBegin 2) :=
    .cons (t := { Progress.zero with request.method.size := 1, parser.state := .waitMethodEnd })
      (fun _ => rfl) (.cons (t := ({ Progress.zero with
        request.method.size := 2, parser.state := .waitResourceBegin } : Progress).advance 1)
        (fun _ => rfl) (.nil _))
  exact hswitch.append (fingerSpaces _ spaces 2)

/-- What the line leads to, before its end: the offset of the method is set where a user name follows
the switch. -/
def fingerTaken (verbose : Bool) (switch user : List UInt8) : Progress :=
  match verbose, user with
  | false, [] => Progress.zero.begin .waitMethodBegin
  | false, user => Progress.zero.userTaken user.length
  | true, [] =>
    ({ Progress.zero with request.method.size := 2 } : Progress).passed .waitResourceBegin
      switch.length
  | true, user =>
    (({ Progress.zero with request.method := ⟨switch.length, 2⟩ } : Progress).advance
      switch.length).userTaken user.length

theorem fingerLine {verbose : Bool} {switch user : List UInt8} {e : LineEnd}
    (huser : ∀ c ∈ user, c ≠ 13 ∧ c ≠ 10) (hfirst : ∀ c ∈ user.head?, c ≠ 32 ∧ c ≠ 47)
    (hswitch : IsSwitch verbose switch) (he : e ≠ .cr) :
    Consumes parserParseFingerStep Progress.bump (switch ++ (user ++ e.bytes))
      (Progress.zero.begin .waitMethodBegin) ((fingerTaken verbose switch user).close e) := by
  cases verbose with
  | false =>
    obtain rfl : switch = [] := hswitch
    rcases user with _ | ⟨c, user⟩
    · exact fingerEnd he (.inl rfl)
    · obtain ⟨hc, huser⟩ := List.forall_mem_cons.mp huser
      obtain ⟨hcr, hlf⟩ := hc
      obtain ⟨-, hslash⟩ := hfirst c rfl
      have hfirst : Consumes parserParseFingerStep Progress.bump [c]
          (Progress.zero.begin .waitMethodBegin) (Progress.zero.userTaken 1) := by
        refine .cons (t := { Progress.zero with
          request.resource.size := 1, parser.state := .waitResourceEnd }) (fun available => ?_) (.nil _)
        simp [parserParseFingerStep, Progress.begin, Progress.zero, Parser.zero, hcr, hlf, hslash]
      have hname := hfirst.append (fingerUser huser Progress.zero 1)
      rw [Nat.add_comm 1] at hname
      exact hname.append (fingerEnd he (.inr (.inr rfl)))
  | true =>
    obtain ⟨spaces, -, rfl⟩ := hswitch
    have hlength : (ascii "/W" ++ List.replicate spaces 32).length = 2 + spaces := by
      simp [show (ascii "/W").length = 2 from rfl]
    refine (fingerSwitch spaces).append ?_
    rcases user with _ | ⟨c, user⟩
    · rw [fingerTaken, hlength]
      exact fingerEnd he (.inr (.inl rfl))
    · obtain ⟨hc, huser⟩ := List.forall_mem_cons.mp huser
      obtain ⟨hcr, hlf⟩ := hc
      obtain ⟨hspace, -⟩ := hfirst c rfl
      let s := ({ Progress.zero with request.method := ⟨2 + spaces, 2⟩ } : Progress).advance (2 + spaces)
      have hfirst : Consumes parserParseFingerStep Progress.bump [c]
          (({ Progress.zero with request.method.size := 2 } : Progress).passed .waitResourceBegin
            (2 + spaces)) (s.userTaken 1) := by
        refine .cons (t := { s with
          request.resource.size := 1, parser.state := .waitResourceEnd }) (fun available => ?_) (.nil _)
        simp [parserParseFingerStep, Progress.passed, Progress.advance, Progress.zero, Request.zero, s,
          hcr, hlf, hspace]
      have hname := hfirst.append (fingerUser huser s 1)
      rw [Nat.add_comm 1] at hname
      rw [fingerTaken, hlength]
      · exact hname.append (fingerEnd he (.inr (.inr rfl)))
      · simp

/-- What the parts of a line lead to. -/
theorem parserParts_finger {verbose : Bool} {switch user : List UInt8} {e : LineEnd}
    {parts : List (List UInt8)} (huser : ∀ c ∈ user, c ≠ 13 ∧ c ≠ 10)
    (hfirst : ∀ c ∈ user.head?, c ≠ 32 ∧ c ≠ 47) (hswitch : IsSwitch verbose switch) (he : e ≠ .cr)
    (hparts : parts.flatten = switch ++ (user ++ e.bytes)) :
    parserParts parserParseFinger parts Progress.zero
      = .ok () ((fingerTaken verbose switch user).close e) := by
  have hp : PlainStep parserParseFingerStep := parserParseFingerStep_plain
  have hline := fingerLine huser hfirst hswitch he
  rw [← hparts] at hline
  obtain ⟨u, hu, hclose⟩ := (hp.resumes (by decide) (by decide)).parts (wholeLookup []) hline
  rwa [Progress.eq_of_begin_end (by decide) hclose (Progress.close_state he)] at hu

/-- The fields are found unless the line has both of them. -/
theorem fingerTaken_selects {verbose : Bool} {switch user : List UInt8} {e : LineEnd}
    (hfirst : ∀ c ∈ user.head?, c ≠ 32 ∧ c ≠ 47) (hswitch : IsSwitch verbose switch)
    (h : verbose = false ∨ user = []) :
    Selects (switch ++ (user ++ e.bytes)) (fingerTaken verbose switch user).request.method
        (if verbose then ascii "/W" else []) ∧
      Selects (switch ++ (user ++ e.bytes)) (fingerTaken verbose switch user).request.resource user := by
  cases verbose with
  | false =>
    obtain rfl : switch = [] := hswitch
    rcases user with _ | ⟨c, user⟩
    · exact ⟨.nothing _, .nothing _⟩
    · exact ⟨.nothing _, .middle [] (c :: user) e.bytes⟩
  | true =>
    obtain ⟨spaces, -, rfl⟩ := hswitch
    obtain rfl : user = [] := h.resolve_left (by decide)
    have hmiddle := Selects.middle [] (ascii "/W") (List.replicate spaces 32 ++ ([] ++ e.bytes))
    rw [List.append_assoc]
    exact ⟨hmiddle, .nothing _⟩

theorem fingerTaken_not_selects {switch : List UInt8} {c : UInt8} {user rest : List UInt8}
    (hfirst : c ≠ 47) (hswitch : IsSwitch true switch) :
    ¬ Selects (switch ++ rest) (fingerTaken true switch (c :: user)).request.resource (c :: user) := by
  rintro ⟨-, hsegment⟩
  obtain ⟨spaces, -, rfl⟩ := hswitch
  have hhead : some 47 = some c := congrArg List.head? hsegment
  exact hfirst (Option.some.inj hhead).symm

/-- Whatever parts a line of Finger arrives in, its parser ends exactly behind its last byte and finds
its switch and its user name, unless it has both of them. -/
theorem parserParseFinger_iff {w : List UInt8} {verbose : Bool} {user : List UInt8}
    {parts : List (List UInt8)} (hline : FingerLine w verbose user) (hparts : parts.flatten = w) :
    (∃ s, parserParts parserParseFinger parts Progress.zero = .ok () s ∧
      FingerParsed w verbose user s) ↔ verbose = false ∨ user = [] := by
  obtain ⟨huser, hfirst, switch, hswitch, e, he, rfl⟩ := hline
  have hparse := parserParts_finger huser hfirst hswitch he hparts
  obtain ⟨hmethod, hresource, -, -⟩ := (fingerTaken verbose switch user).close_fields e
  constructor
  · rintro ⟨s, hs, h⟩
    obtain ⟨-, rfl⟩ := Outcome.ok.inj (hparse.symm.trans hs)
    by_contra hboth
    obtain ⟨hverbose, hne⟩ := not_or.mp hboth
    obtain rfl : verbose = true := by simpa using hverbose
    obtain ⟨c, user, rfl⟩ := List.exists_cons_of_ne_nil hne
    exact fingerTaken_not_selects (hfirst c rfl).2 hswitch (hresource ▸ h.resource)
  · intro h
    obtain ⟨hselects, hselects'⟩ := fingerTaken_selects (e := e) hfirst hswitch h
    have hp : PlainStep parserParseFingerStep := parserParseFingerStep_plain
    have hsize := (hp.consumes (fingerLine huser hfirst hswitch he)).1
    rw [Progress.begin_streamSize, show Progress.zero.request.streamSize = 0 from rfl,
      Nat.zero_add] at hsize
    exact ⟨_, hparse, Progress.close_state he, hsize, hmethod ▸ hselects, hresource ▸ hselects'⟩

/-- The user name of the examples. -/
theorem fingerLine_al {switch : List UInt8} {verbose : Bool} (hswitch : IsSwitch verbose switch) :
    FingerLine (switch ++ (ascii "al" ++ LineEnd.crlf.bytes)) verbose (ascii "al") := by
  refine ⟨?_, ?_, switch, hswitch, .crlf, by decide, rfl⟩
  · rw [show ascii "al" = [97, 108] from rfl]
    simp
  · rw [show ascii "al" = [97, 108] from rfl]
    simp

/-- The name of a user is found behind nothing, whatever its parts. -/
theorem parserParseFinger_iff_user :
    (∃ s, parserParts parserParseFinger [ascii "a", ascii "l\r", ascii "\n"] Progress.zero = .ok () s ∧
      FingerParsed (ascii "al\r\n") false (ascii "al") s) ↔ false = false ∨ ascii "al" = [] :=
  parserParseFinger_iff (fingerLine_al (show IsSwitch false [] from rfl)) rfl

/-- Behind the switch it is not: the locations of the two fields of `/W al` select `al` and `/W`. -/
theorem parserParseFinger_both :
    ¬ ∀ (w : List UInt8) (verbose : Bool) (user : List UInt8) (parts : List (List UInt8)),
      FingerLine w verbose user → parts.flatten = w →
        ∃ s, parserParts parserParseFinger parts Progress.zero = .ok () s ∧
          FingerParsed w verbose user s := by
  intro hclaim
  obtain ⟨s, hs, h⟩ := hclaim (ascii "/W al\r\n") true (ascii "al") [ascii "/W al\r\n"]
    (fingerLine_al (show IsSwitch true (ascii "/W ") from ⟨1, by decide, rfl⟩)) rfl
  have hparse : parserParts parserParseFinger [ascii "/W al\r\n"] Progress.zero
      = .ok () ⟨{ Parser.zero with state := .end },
          { Request.zero with streamSize := 7, method := ⟨3, 2⟩, resource := ⟨0, 2⟩ }⟩ := by
    decide +kernel
  obtain ⟨-, rfl⟩ := Outcome.ok.inj (hparse.symm.trans hs)
  exact absurd h.resource.2 (by decide)

end Twinkleshine
