import Twinkleshine.Parser.Feed

/-!
# The bytes of an HTTP header

Every state of the HTTP parser reads some classes of characters and refuses the others, except for the
state behind a carriage return: it skips what it does not know. This module says on which headers a
byte is skipped. Reference: `source/parser/http_parser.c`.
-/

namespace Twinkleshine

open Library

/-! ## States and characters -/

/-- The characters that are read in a state. -/
def permits (state : ParserState) (c : UInt8) : Bool :=
  match state with
  | .waitMethodBegin | .waitMethodEnd => isClass cmSpace c || isClass cmMethod c
  | .waitResourceBegin | .waitResourceEnd => isClass cmSpace c || isClass cmResource c
  | .waitProtocolBegin => isClass cmSpace c || isClass cmProtocol c
  | .waitProtocolEnd => isClass cmSpace c || isClass cmProtocol c || isClass cmNewline c
  | .waitLineCr => isClass cmSpace c || isClass cmNewline c
  | .waitLineLf | .waitNameBegin => isClass cmSpace c || isClass cmName c || isClass cmNewline c
  | .waitNameEnd => isClass cmSpace c || isClass cmName c || c == 58
  | .waitColon => isClass cmSpace c || c == 58
  | .waitValueEnd => isClass cmValue c || isClass cmNewline c
  | .waitFinalLineLf => c == 10
  | .waitContent | .begin | .end => false

/-- The states that may follow a carriage return. -/
def followsCr : ParserState → Bool
  | .waitLineLf | .waitNameBegin | .waitFinalLineLf | .waitContent | .end => true
  | _ => false

/-- What a counted character says of the states before and behind it. -/
structure Counts (state : ParserState) (c : UInt8) (next : ParserState) : Prop where
  permitted : state ≠ .waitLineLf → permits state c = true
  lineLf : permits state c = true → next = .waitLineLf → c = 13
  cr : c = 13 → followsCr next = true

section

variable {lookup : Lookup} {n : ℕ} {c : UInt8} {s t : Progress}

theorem contentOrEnd_followsCr (parser : Parser) :
    parser.contentOrEnd ≠ .waitLineLf ∧ followsCr parser.contentOrEnd = true := by
  rw [Parser.contentOrEnd]
  split_ifs <;> decide

/-- A carriage return is a newline and nothing else. -/
theorem isClass_cr : isClass cmSpace 13 = false ∧ isClass cmMethod 13 = false ∧
    isClass cmResource 13 = false ∧ isClass cmProtocol 13 = false ∧ isClass cmName 13 = false ∧
    isClass cmValue 13 = false := by
  decide

theorem parserParseHttpStep_counts (h : parserParseHttpStep lookup n c s = .ok .next t) :
    Counts s.parser.state c t.parser.state := by
  have hcr := isClass_cr
  have hcontent := contentOrEnd_followsCr s.parser
  cases hstate : s.parser.state with
  | waitValueEnd =>
    simp only [parserParseHttpStep, hstate] at h
    split_ifs at h with hvalue hnewline h13
    · cases h
      exact ⟨fun _ => by simp [permits, hvalue], fun _ hnext => absurd hnext (by simp),
        by rintro rfl; simp_all⟩
    · obtain ⟨_, u, -, h⟩ := Outcome.andThen_eq_ok.mp h
      refine ⟨fun _ => by simp [permits, hnewline], fun _ _ => h13, fun _ => ?_⟩
      split_ifs at h <;> cases h <;> rfl
    · obtain ⟨_, u, -, h⟩ := Outcome.andThen_eq_ok.mp h
      cases h
      exact ⟨fun _ => by simp [permits, hnewline], fun _ hnext => absurd hnext (by simp),
        fun hc => absurd hc h13⟩
  | _ =>
    simp only [parserParseHttpStep, hstate] at h
    try split_ifs at h
    all_goals cases h
    all_goals refine ⟨fun _ => ?_, fun _ hnext => ?_, fun hc => ?_⟩
    all_goals try subst hc
    all_goals simp_all [permits, followsCr]

/-! ## The bytes of a header -/

/-- The bytes that calls of the parser count, each with the progress it is counted in. The content is
not counted byte by byte. -/
def callsScanned (initial : ParserState) (step : Lookup → ParserStep) :
    List (Lookup × List UInt8) → Progress → List (Progress × UInt8)
  | [], _ => []
  | call :: calls, s =>
    scanned (step call.1) Progress.bump call.2 (s.begin initial) ++
      match parsePart initial (step call.1) call.2 s with
      | .ok _ t => callsScanned initial step calls t
      | _ => []

/-- Bytes that are counted one behind the other, wherever they are looked up. -/
inductive Counting (step : Lookup → ParserStep) : Progress → List (Progress × UInt8) → Progress → Prop
  where
  | nil (s : Progress) : Counting step s [] s
  | cons {lookup : Lookup} {n : ℕ} {c : UInt8} {s t u : Progress} {counted : List (Progress × UInt8)}
      (head : step lookup n c s = .ok .next t) (tail : Counting step t.bump counted u) :
      Counting step s ((s, c) :: counted) u

/-- A byte that may follow a carriage return. -/
def mayFollowCr (c c' : UInt8) : Prop := c = 13 → permits .waitLineLf c' = true

/-- Whether a byte is permitted depends on the byte before it. -/
theorem Counts.permits_iff {state next : ParserState} {b : UInt8} (h : Counts state c next)
    (hlineLf : state = .waitLineLf → b = 13) (hcr : b = 13 → followsCr state = true) :
    permits state c = true ↔ mayFollowCr b c := by
  by_cases hstate : state = .waitLineLf
  · subst hstate
    exact ⟨fun hpermits _ => hpermits, fun hmay => hmay (hlineLf rfl)⟩
  · have hpermits := h.permitted hstate
    refine iff_of_true hpermits fun hb => ?_
    have hnext := hcr hb
    cases state with
    | waitNameBegin => exact hpermits
    | waitFinalLineLf =>
      obtain rfl : c = 10 := eq_of_beq hpermits
      decide
    | waitLineLf => exact absurd rfl hstate
    | waitContent | «end» => cases hpermits
    | _ => cases hnext

theorem isChain_mayFollowCr {bytes : List UInt8} :
    (0 :: bytes).IsChain mayFollowCr ↔ bytes.IsChain mayFollowCr := by
  have hzero : ∀ c, mayFollowCr 0 c := fun c h => absurd h (by decide)
  cases bytes with
  | nil => simp
  | cons c bytes => rw [List.isChain_cons_cons, and_iff_right (hzero c)]

/-- Every byte is permitted when every byte behind a carriage return is; `b` is the byte before. -/
theorem Counting.permits_iff {counted : List (Progress × UInt8)} {b : UInt8}
    (h : Counting parserParseHttpStep s counted t) (hlineLf : s.parser.state = .waitLineLf → b = 13)
    (hcr : b = 13 → followsCr s.parser.state = true) :
    (∀ p ∈ counted, permits p.1.parser.state p.2 = true) ↔
      (b :: counted.map (·.2)).IsChain mayFollowCr := by
  induction h generalizing b with
  | nil s => simp
  | @cons _ _ c s u _ counted head tail ih =>
    have hcounts := parserParseHttpStep_counts head
    rw [List.forall_mem_cons, List.map_cons, List.isChain_cons_cons, hcounts.permits_iff hlineLf hcr]
    refine and_congr_right fun hmay => ih (hcounts.lineLf ?_) hcounts.cr
    exact (hcounts.permits_iff hlineLf hcr).mpr hmay

end

/-! ## Calls of the parser -/

section

variable {Inv : Progress → Prop} {initial : ParserState} {step : Lookup → ParserStep}
  {lookup : Lookup} {s t u : Progress}

theorem Counting.append {counted counted' : List (Progress × UInt8)} (h : Counting step s counted t)
    (h' : Counting step t counted' u) : Counting step s (counted ++ counted') u := by
  induction h with
  | nil s => exact h'
  | cons head tail ih => exact .cons head (ih h')

/-- The bytes of a part that are counted: all of it, or those in front of the end of the header. -/
theorem Resumes.scanned (hp : Resumes Inv initial step) {part : List UInt8}
    (hs : s.parser.state ≠ .begin) (h : scan (step lookup) Progress.bump part s = .ok () t) :
    ∃ u, Counting step s (scanned (step lookup) Progress.bump part s) u ∧
      ((scanned (step lookup) Progress.bump part s).map (·.2) = part ∧ u = t ∨
        (scanned (step lookup) Progress.bump part s).map (·.2) <+: part ∧ u.Headed ∧
          SameHeader u t) := by
  induction part generalizing s with
  | nil =>
    obtain ⟨-, rfl⟩ := Outcome.ok.inj h
    exact ⟨s, .nil s, .inl ⟨rfl, rfl⟩⟩
  | cons c part ih =>
    rw [scan] at h
    obtain ⟨flow, v, hstep, hrest⟩ := Outcome.andThen_eq_ok.mp h
    cases flow with
    | next =>
      obtain ⟨u, hcounting, hu⟩ := ih (s := v.bump) (hp.next hstep).2.2.1 hrest
      rw [scanned_next hstep, List.map_cons]
      refine ⟨u, .cons hstep hcounting, hu.imp ?_ ?_⟩
      · rintro ⟨hall, hut⟩
        exact ⟨by rw [hall], hut⟩
      · rintro ⟨hbegins, hheaded⟩
        exact ⟨List.cons_prefix_cons.mpr ⟨rfl, hbegins⟩, hheaded⟩
    | halt =>
      obtain ⟨-, rfl⟩ := Outcome.ok.inj hrest
      rw [scanned_halt hstep]
      exact ⟨s, .nil s, .inr ⟨List.nil_prefix, hp.halt_sameHeader hs hstep⟩⟩

/-- Behind the header no byte is counted. -/
theorem Resumes.scanned_headed (hp : Resumes Inv initial step) (hs : s.Headed) (part : List UInt8) :
    Library.scanned (step lookup) Progress.bump part s = [] := by
  rcases part with _ | ⟨c, part⟩
  · rfl
  · rw [Library.scanned]
    split
    · next hstep =>
      obtain ⟨hcontent, hend, -, -⟩ := hp.next hstep
      exact absurd hs (not_or.mpr ⟨hcontent, hend⟩)
    · rfl

theorem Resumes.callsScanned_headed (hp : Resumes Inv initial step) (hs : s.Headed)
    (calls : List (Lookup × List UInt8)) : callsScanned initial step calls s = [] := by
  induction calls generalizing s with
  | nil => rfl
  | cons call calls ih =>
    rw [callsScanned, hs.begin_eq, hp.scanned_headed hs, List.nil_append]
    split
    · next hpart => exact ih (hp.part_sameHeader hs hpart).headed
    · rfl

theorem Resumes.counting_ne_begin (hp : Resumes Inv initial step)
    {counted : List (Progress × UInt8)} (h : Counting step s counted t)
    (hs : s.parser.state ≠ .begin) : t.parser.state ≠ .begin := by
  induction h with
  | nil s => exact hs
  | cons head tail ih => exact ih (hp.next head).2.2.1

/-- The bytes that calls count: all of them, or those in front of the end of the header. -/
theorem Resumes.callsScanned (hp : Resumes Inv initial step) {w : List UInt8} {m n : ℕ}
    {calls : List (Lookup × List UInt8)} (hfeeds : Feeds w m calls n)
    (h : parserCalls initial step calls s = .ok () t) :
    ∃ u, Counting step (s.begin initial) (callsScanned initial step calls s) u ∧
      ((callsScanned initial step calls s).map (·.2) = (w.take n).drop m ∧ u = t.begin initial ∨
        (callsScanned initial step calls s).map (·.2) <+: (w.take n).drop m ∧ u.Headed ∧
          SameHeader u t) := by
  induction hfeeds generalizing s with
  | nil m =>
    obtain ⟨-, rfl⟩ := Outcome.ok.inj h
    have hnil : (w.take m).drop m = [] :=
      List.drop_eq_nil_of_le (by rw [List.length_take]; exact Nat.min_le_left _ _)
    exact ⟨_, .nil _, .inl ⟨hnil.symm, rfl⟩⟩
  | @cons m k n lookup calls le le_length reads rest ih =>
    obtain ⟨_, v, hpart, hrest⟩ := Outcome.andThen_eq_ok.mp h
    have hbegin := Progress.begin_ne hp.initial_ne_begin s
    rw [Twinkleshine.callsScanned, hpart, drop_take_append (le.trans le_length) le rest.le]
    dsimp only
    obtain ⟨u, hcounting, ⟨hall, rfl⟩ | ⟨hbegins, hheaded, hsame⟩⟩ := hp.scanned hbegin hpart
    · obtain ⟨u', hcounting', hu'⟩ := ih hrest
      rw [Progress.begin_of_ne (hp.counting_ne_begin hcounting hbegin)] at hcounting'
      rw [List.map_append, hall]
      refine ⟨u', hcounting.append hcounting', hu'.imp ?_ ?_⟩
      · rintro ⟨hmap, heq⟩
        exact ⟨by rw [hmap], heq⟩
      · rintro ⟨hmap, hsame⟩
        exact ⟨(List.prefix_append_right_inj _).mpr hmap, hsame⟩
    · rw [hp.callsScanned_headed hsame.headed, List.append_nil]
      exact ⟨u, hcounting, .inr ⟨hbegins.trans (List.prefix_append _ _), hheaded,
        hsame.trans (hp.calls_sameHeader hsame.headed hrest)⟩⟩

/-! ## The header -/

/-- The bytes of the header section, each with the progress it is counted in. -/
def httpHeader (calls : List (Lookup × List UInt8)) : List (Progress × UInt8) :=
  callsScanned .waitMethodBegin parserParseHttpStep calls Progress.zero

/-- When calls of the parser lead to the end of a request, every byte of its header section was read in
a state that reads bytes of its classes, unless one directly behind a carriage return was skipped. -/
theorem parserParseHttp_permits_iff {w : List UInt8} {n : ℕ} {calls : List (Lookup × List UInt8)}
    (hfeeds : Feeds w 0 calls n)
    (h : parserCalls .waitMethodBegin parserParseHttpStep calls Progress.zero = .ok () t)
    (hend : t.parser.state = .end) :
    ∃ header, header <+: w ∧ (httpHeader calls).map (·.2) = header ∧
      (∃ s, Counting parserParseHttpStep (Progress.zero.begin .waitMethodBegin) (httpHeader calls) s ∧
        s.Headed) ∧
      ((∀ p ∈ httpHeader calls, permits p.1.parser.state p.2 = true) ↔
        header.IsChain mayFollowCr) := by
  obtain ⟨u, hcounting, hu⟩ := parserParseHttpStep_resumes.callsScanned hfeeds h
  have hfront : (w.take n).drop 0 <+: w := List.drop_zero (l := w.take n) ▸ List.take_prefix n w
  have hiff := hcounting.permits_iff (b := 0) (fun h => absurd h (by decide))
    fun h => absurd h (by decide)
  have hheader : (httpHeader calls).map (·.2) <+: w ∧ u.Headed := by
    rcases hu with ⟨hall, rfl⟩ | ⟨hbegins, hheaded, -⟩
    · exact ⟨by rw [httpHeader, hall]; exact hfront, .inr (by rw [Progress.begin_of_ne] <;> simp [hend])⟩
    · exact ⟨hbegins.trans hfront, hheaded⟩
  exact ⟨_, hheader.1, rfl, ⟨u, hcounting, hheader.2⟩, hiff.trans isChain_mayFollowCr⟩

/-- A request without header fields, in two parts. -/
def plainRequest : List UInt8 := ascii "GET / HTTP/1.1\r\n\r\n"

def plainCalls : List (Lookup × List UInt8) :=
  [(wholeLookup plainRequest, plainRequest.take 15), (wholeLookup plainRequest, plainRequest.drop 15)]

/-- All of its bytes are permitted. -/
theorem parserParseHttp_permits_iff_plain :
    (httpHeader plainCalls).all (fun p => permits p.1.parser.state p.2) = true := by
  have hreads : ∀ k, Reads (wholeLookup plainRequest) (plainRequest.take k) := fun k =>
    (wholeLookup_reads plainRequest).of_front (List.take_prefix k plainRequest)
  have hfeeds : Feeds plainRequest 0 plainCalls 18 :=
    .cons (k := 15) (by decide) (by decide) (hreads 15)
      (.cons (k := 18) (by decide) (by decide) (hreads 18) (.nil 18))
  have hparse : parserCalls .waitMethodBegin parserParseHttpStep plainCalls Progress.zero
      = .ok () ⟨{ Parser.zero with state := .end }, { Request.zero with
          streamSize := 18, method := ⟨0, 3⟩, resource := ⟨4, 1⟩, protocol := ⟨6, 8⟩ }⟩ := by
    decide +kernel
  obtain ⟨header, -, hheader, -, hiff⟩ := parserParseHttp_permits_iff hfeeds hparse rfl
  have hbytes : header = plainRequest := hheader.symm.trans (by decide +kernel)
  have hchain : plainRequest.IsChain fun c c' => c = 13 → permits .waitLineLf c' = true := by
    decide +kernel
  exact List.all_eq_true.mpr (hiff.mpr (hbytes ▸ hchain))

/-- A request with a control byte behind the carriage return of its request line. -/
def skippedRequest : List UInt8 := ascii "GET / HTTP/1.1\r\x01\n\r\n"

/-- It is parsed to its end, and the control byte is skipped. -/
theorem parserParseHttp_skips :
    ¬ ∀ (w : List UInt8) (n : ℕ) (calls : List (Lookup × List UInt8)) (t : Progress),
      Feeds w 0 calls n →
      parserCalls .waitMethodBegin parserParseHttpStep calls Progress.zero = .ok () t →
      t.parser.state = .end → ∀ p ∈ httpHeader calls, permits p.1.parser.state p.2 = true := by
  intro hclaim
  have hfeeds : Feeds skippedRequest 0 [(wholeLookup skippedRequest, skippedRequest)] 19 :=
    .cons (k := 19) (by decide) (by decide) (wholeLookup_reads skippedRequest) (.nil 19)
  have hparse : parserCalls .waitMethodBegin parserParseHttpStep
      [(wholeLookup skippedRequest, skippedRequest)] Progress.zero
        = .ok () ⟨{ Parser.zero with state := .end }, { Request.zero with
            streamSize := 19, method := ⟨0, 3⟩, resource := ⟨4, 1⟩, protocol := ⟨6, 8⟩ }⟩ := by
    decide +kernel
  have hall := hclaim skippedRequest 19 _ _ hfeeds hparse rfl
  have hskipped : ¬ ∀ p ∈ httpHeader [(wholeLookup skippedRequest, skippedRequest)],
      permits p.1.parser.state p.2 = true := by
    decide +kernel
  exact hskipped hall

end

end Twinkleshine
