import Twinkleshine.Parser.Chunking

/-!
# Requests that are fed piece by piece

`parser_parse` calls a parser function on one part of the stream after another. Whatever the parts are,
and wherever the ring wraps, a call that returns has counted the bytes one by one from the progress of
the call before, up to the content of the request or to its end.
-/

namespace Twinkleshine

open Library

/-! ## Calls of a parser function -/

/-- A lookup in a stream, wherever it is kept. -/
def wholeLookup (w : List UInt8) : Lookup := fun location => .ok ⟨segment w location false, []⟩

theorem wholeLookup_reads (w : List UInt8) : Reads (wholeLookup w) w := fun location _ =>
  ⟨_, rfl, by rw [ConstantValue.bytes, List.append_nil]⟩

/-- Successive calls of a parser function, with the lookup and the part each of them is given. -/
def parserCalls (initial : ParserState) (step : Lookup → ParserStep) :
    List (Lookup × List UInt8) → Progress → Outcome ExError Progress Unit
  | [], s => .ok () s
  | call :: calls, s =>
    (parsePart initial (step call.1) call.2 s).andThen fun _ s => parserCalls initial step calls s

/-- The parts of the calls are the bytes of `w` from `m` to `n`, and each call finds all of the stream
up to the end of its part. -/
inductive Feeds (w : List UInt8) : ℕ → List (Lookup × List UInt8) → ℕ → Prop where
  | nil (m : ℕ) : Feeds w m [] m
  | cons {m k n : ℕ} {lookup : Lookup} {calls : List (Lookup × List UInt8)} (le : m ≤ k)
      (le_length : k ≤ w.length) (reads : Reads lookup (w.take k)) (rest : Feeds w k calls n) :
      Feeds w m ((lookup, (w.take k).drop m) :: calls) n

theorem Feeds.le {w : List UInt8} {m n : ℕ} {calls : List (Lookup × List UInt8)}
    (h : Feeds w m calls n) : m ≤ n := by
  induction h with
  | nil m => exact le_rfl
  | cons le _ _ _ ih => exact le.trans ih

/-- A parser function that can be called on parts: how it counts bytes, and where it leaves a part.
`Inv` is what the locations of its progress need to be found. -/
structure Resumes (Inv : Progress → Prop) (initial : ParserState) (step : Lookup → ParserStep) :
    Prop where
  initial_ne_begin : initial ≠ .begin
  initial_ne_end : initial ≠ .end
  begin : ∀ {s : Progress}, Inv s → Inv (s.begin initial)
  /-- A byte is counted wherever the part ends, and not in the content or behind the end. -/
  next : ∀ {lookup : Lookup} {n : ℕ} {c : UInt8} {s t : Progress},
    step lookup n c s = .ok .next t → s.parser.state ≠ .waitContent ∧ s.parser.state ≠ .end ∧
      t.parser.state ≠ .begin ∧ ∀ available, step lookup available c s = .ok .next t
  /-- A part is left in the content, or behind the end. -/
  halt : ∀ {lookup : Lookup} {n : ℕ} {c : UInt8} {s t : Progress}, s.parser.state ≠ .begin →
    step lookup n c s = .ok .halt t →
      s.parser.state = .waitContent ∧ t = parseContent n s ∨ s.parser.state = .end ∧ t = s
  counts : ∀ {lookup : Lookup} {w cs : List UInt8} {s t : Progress}, Reads lookup w →
    Consumes (step lookup) Progress.bump cs s t → s.request.streamSize + cs.length ≤ w.length →
    Inv s → s.parser.state ≠ .begin →
      t.request.streamSize = s.request.streamSize + cs.length ∧ Inv t
  congr : ∀ {lookup lookup' : Lookup} {w cs : List UInt8} {s t : Progress}, Reads lookup w →
    Reads lookup' w → Consumes (step lookup) Progress.bump cs s t →
    s.request.streamSize + cs.length ≤ w.length → Inv s →
      Consumes (step lookup') Progress.bump cs s t

/-! ## Behind the header -/

/-- The parser has left the header: it waits for the content, or the request has ended. -/
def Progress.Headed (s : Progress) : Prop :=
  s.parser.state = .waitContent ∨ s.parser.state = .end

/-- What is the same of two progresses behind the header. -/
structure SameHeader (s t : Progress) : Prop where
  headed : t.Headed
  remainingContent : t.parser.remainingContent = s.parser.remainingContent
  ended : s.parser.state = .end → t = s

section

variable {Inv : Progress → Prop} {initial : ParserState} {step : Lookup → ParserStep}
  {lookup : Lookup} {w : List UInt8} {m n : ℕ} {s t : Progress}

theorem Progress.Headed.begin_eq (h : s.Headed) (initial : ParserState) : s.begin initial = s := by
  refine Progress.begin_of_ne ?_ initial
  rcases h with h | h <;> simp [h]

/-- A parser that has ended had begun. -/
theorem Progress.eq_of_begin_end (hinitial : initial ≠ .end) (h : s.begin initial = t)
    (ht : t.parser.state = .end) : s = t := by
  by_cases hs : s.parser.state = .begin
  · rw [← h, Progress.begin, if_pos hs] at ht
    exact absurd ht hinitial
  · rwa [Progress.begin_of_ne hs] at h

theorem SameHeader.refl (h : s.Headed) : SameHeader s s := ⟨h, rfl, fun _ => rfl⟩

theorem SameHeader.trans {u : Progress} (h : SameHeader s t) (h' : SameHeader t u) :
    SameHeader s u := by
  refine ⟨h'.headed, h'.remainingContent.trans h.remainingContent, fun hend => ?_⟩
  obtain rfl := h.ended hend
  exact h'.ended hend

theorem parseContent_sameHeader (available : ℕ) (h : s.parser.state = .waitContent) :
    SameHeader s (parseContent available s) := by
  rw [parseContent]
  split_ifs
  · exact ⟨.inr rfl, rfl, fun hend => absurd (h.symm.trans hend) (by decide)⟩
  · exact ⟨.inl h, rfl, fun hend => absurd (h.symm.trans hend) (by decide)⟩

/-- Where a part is left, the header stays as it is. -/
theorem Resumes.halt_sameHeader (hp : Resumes Inv initial step) {c : UInt8}
    (hbegin : s.parser.state ≠ .begin) (h : step lookup n c s = .ok .halt t) :
    s.Headed ∧ SameHeader s t := by
  rcases hp.halt hbegin h with ⟨hstate, rfl⟩ | ⟨hstate, rfl⟩
  · exact ⟨.inl hstate, parseContent_sameHeader n hstate⟩
  · exact ⟨.inr hstate, .refl (.inr hstate)⟩

/-- No byte is counted behind the header. -/
theorem Resumes.part_sameHeader (hp : Resumes Inv initial step) (hs : s.Headed) {part : List UInt8}
    (h : parsePart initial (step lookup) part s = .ok () t) : SameHeader s t := by
  rw [parsePart, hs.begin_eq] at h
  have hbegin : s.parser.state ≠ .begin := by rcases hs with hs | hs <;> simp [hs]
  rcases part with _ | ⟨c, part⟩
  · obtain ⟨-, rfl⟩ := Outcome.ok.inj h
    exact .refl hs
  · rw [scan] at h
    obtain ⟨flow, u, hstep, hrest⟩ := Outcome.andThen_eq_ok.mp h
    cases flow with
    | next =>
      obtain ⟨hcontent, hend, -, -⟩ := hp.next hstep
      exact absurd hs (not_or.mpr ⟨hcontent, hend⟩)
    | halt =>
      obtain ⟨-, rfl⟩ := Outcome.ok.inj hrest
      exact (hp.halt_sameHeader hbegin hstep).2

theorem Resumes.ne_begin (hp : Resumes Inv initial step) {cs : List UInt8}
    (h : Consumes (step lookup) Progress.bump cs (s.begin initial) t) : t.parser.state ≠ .begin := by
  have hbegin := Progress.begin_ne hp.initial_ne_begin s
  generalize s.begin initial = u at h hbegin
  induction h with
  | nil u => exact hbegin
  | cons head tail ih => exact ih (hp.next (head 1)).2.2.1

/-- A part is counted to its end, or left behind the header. -/
theorem Resumes.part (hp : Resumes Inv initial step) {part : List UInt8}
    (h : parsePart initial (step lookup) part s = .ok () t) :
    Consumes (step lookup) Progress.bump part (s.begin initial) t ∨
      ∃ counted left header, part = counted ++ left ∧
        Consumes (step lookup) Progress.bump counted (s.begin initial) header ∧ header.Headed ∧
        SameHeader header t := by
  have hnext : ∀ n c s t, step lookup n c s = .ok .next t →
      ∀ available, step lookup available c s = .ok .next t := fun _ _ _ _ ht => (hp.next ht).2.2.2
  rcases Consumes.of_scan hnext h with hall | ⟨counted, c, left, u, hpart, hcounted, hhalt⟩
  · exact .inl hall
  · obtain ⟨hheaded, hsame⟩ := hp.halt_sameHeader (hp.ne_begin hcounted) hhalt
    exact .inr ⟨counted, c :: left, u, hpart, hcounted, hheaded, hsame⟩

/-! ## Up to the header -/

/-- The bytes from `m` to `n` were counted. -/
structure Counted (Inv : Progress → Prop) (initial : ParserState) (step : Lookup → ParserStep)
    (w : List UInt8) (m n : ℕ) (s t : Progress) : Prop where
  counts : Consumes (step (wholeLookup w)) Progress.bump ((w.take n).drop m) (s.begin initial)
    (t.begin initial)
  streamSize : t.request.streamSize = n
  inv : Inv t

/-- Of the bytes from `m` to `n`, those up to the end of the header were counted. -/
def LeftHeader (initial : ParserState) (step : Lookup → ParserStep) (w : List UInt8) (m n : ℕ)
    (s t : Progress) : Prop :=
  ∃ k header, m ≤ k ∧ k ≤ n ∧
    Consumes (step (wholeLookup w)) Progress.bump ((w.take k).drop m) (s.begin initial) header ∧
    header.Headed ∧ SameHeader header t

/-- Counting goes on. -/
theorem Counted.trans {k : ℕ} {u : Progress} (hk : k ≤ w.length) (hmk : m ≤ k) (hkn : k ≤ n)
    (h : Counted Inv initial step w m k s u) (h' : Counted Inv initial step w k n u t) :
    Counted Inv initial step w m n s t := by
  refine ⟨?_, h'.streamSize, h'.inv⟩
  rw [drop_take_append (hmk.trans hk) hmk hkn]
  exact h.counts.append h'.counts

/-- Counting ends with the header. -/
theorem Counted.trans_left {k : ℕ} {u : Progress} (hk : k ≤ w.length) (hmk : m ≤ k)
    (h : Counted Inv initial step w m k s u) (h' : LeftHeader initial step w k n u t) :
    LeftHeader initial step w m n s t := by
  obtain ⟨l, header, hkl, hln, hcounts, hheaded, hsame⟩ := h'
  refine ⟨l, header, hmk.trans hkl, hln, ?_, hheaded, hsame⟩
  rw [drop_take_append (hmk.trans hk) hmk hkl]
  exact h.counts.append hcounts

/-- Nothing happens to the header behind it. -/
theorem LeftHeader.trans {k : ℕ} {u : Progress} (hkn : k ≤ n)
    (h : LeftHeader initial step w m k s u) (h' : u.Headed → SameHeader u t) :
    LeftHeader initial step w m n s t := by
  obtain ⟨l, header, hml, hlk, hcounts, hheaded, hsame⟩ := h
  exact ⟨l, header, hml, hlk.trans hkn, hcounts, hheaded, hsame.trans (h' hsame.headed)⟩

/-- A call that returns has counted the part it was given, up to the end of the header. -/
theorem Resumes.call (hp : Resumes Inv initial step) (hmn : m ≤ n) (hn : n ≤ w.length)
    (hreads : Reads lookup (w.take n)) (hsize : s.request.streamSize = m) (hs : Inv s)
    (h : parsePart initial (step lookup) ((w.take n).drop m) s = .ok () t) :
    Counted Inv initial step w m n s t ∨ LeftHeader initial step w m n s t := by
  have hbegin := Progress.begin_ne hp.initial_ne_begin s
  have hcount : (s.begin initial).request.streamSize = m := by rw [Progress.begin_streamSize, hsize]
  have hlength : (w.take n).length = n := by rw [List.length_take, Nat.min_eq_left hn]
  have hwhole : Reads (wholeLookup w) (w.take n) :=
    (wholeLookup_reads w).of_front (List.take_prefix n w)
  rcases hp.part h with hall | ⟨counted, left, header, hpart, hcounted, hheaded, hsame⟩
  · have hfit : (s.begin initial).request.streamSize + ((w.take n).drop m).length
        ≤ (w.take n).length := by
      rw [List.length_drop]
      omega
    obtain ⟨hstream, hinv⟩ := hp.counts hreads hall hfit (hp.begin hs) hbegin
    have ht : t.begin initial = t := Progress.begin_of_ne (hp.ne_begin hall) initial
    refine .inl ⟨?_, ?_, hinv⟩
    · rw [ht]
      exact hp.congr hreads hwhole hall hfit (hp.begin hs)
    · rw [hstream, List.length_drop]
      omega
  · have hlen := congrArg List.length hpart
    rw [List.length_append, List.length_drop, hlength] at hlen
    have htake : (w.take (m + counted.length)).drop m = counted := by
      have htake := congrArg (List.take counted.length) hpart
      rwa [List.take_left, List.take_drop, List.take_take, Nat.min_eq_left (by omega)] at htake
    have hfit : (s.begin initial).request.streamSize + counted.length ≤ (w.take n).length := by
      omega
    refine .inr ⟨m + counted.length, header, by omega, by omega, ?_, hheaded, hsame⟩
    rw [htake]
    exact hp.congr hreads hwhole hcounted hfit (hp.begin hs)

/-- Calls behind the header leave it as it is. -/
theorem Resumes.calls_sameHeader (hp : Resumes Inv initial step)
    {calls : List (Lookup × List UInt8)} (hs : s.Headed)
    (h : parserCalls initial step calls s = .ok () t) : SameHeader s t := by
  induction calls generalizing s with
  | nil =>
    obtain ⟨-, rfl⟩ := Outcome.ok.inj h
    exact .refl hs
  | cons call calls ih =>
    obtain ⟨_, u, hu, hrest⟩ := Outcome.andThen_eq_ok.mp h
    have hsame := hp.part_sameHeader hs hu
    exact hsame.trans (ih hsame.headed hrest)

/-- Calls that return have counted the parts they were given, up to the end of the header. -/
theorem Resumes.calls (hp : Resumes Inv initial step) {calls : List (Lookup × List UInt8)}
    (hfeeds : Feeds w m calls n) (hm : m ≤ w.length) (hsize : s.request.streamSize = m) (hs : Inv s)
    (h : parserCalls initial step calls s = .ok () t) :
    Counted Inv initial step w m n s t ∨ LeftHeader initial step w m n s t := by
  induction hfeeds generalizing s with
  | nil m =>
    obtain ⟨-, rfl⟩ := Outcome.ok.inj h
    have hnil : (w.take m).drop m = [] :=
      List.drop_eq_nil_of_le (by rw [List.length_take]; exact Nat.min_le_left _ _)
    exact .inl ⟨hnil ▸ .nil _, hsize, hs⟩
  | cons le le_length reads rest ih =>
    obtain ⟨_, u, hu, hrest⟩ := Outcome.andThen_eq_ok.mp h
    rcases hp.call le le_length reads hsize hs hu with hall | hleft
    · exact (ih le_length hall.streamSize hall.inv hrest).imp (hall.trans le_length le rest.le)
        (hall.trans_left le_length le)
    · exact .inr (hleft.trans rest.le fun hheaded => hp.calls_sameHeader hheaded hrest)

/-- Calls on bytes that are counted whatever the parts are return. -/
theorem Resumes.calls_of_consumes (hp : Resumes Inv initial step)
    {calls : List (Lookup × List UInt8)} (hfeeds : Feeds w m calls n) (hm : m ≤ w.length)
    (hsize : s.request.streamSize = m) (hs : Inv s) {final : Progress}
    (h : Consumes (step (wholeLookup w)) Progress.bump ((w.take n).drop m) (s.begin initial) final) :
    ∃ t, parserCalls initial step calls s = .ok () t ∧ t.begin initial = final ∧
      t.request.streamSize = n ∧ Inv t := by
  induction hfeeds generalizing s with
  | nil m =>
    rw [List.drop_eq_nil_of_le (by rw [List.length_take]; exact Nat.min_le_left _ _)] at h
    cases h
    exact ⟨s, rfl, rfl, hsize, hs⟩
  | @cons m k n lookup calls le le_length reads rest ih =>
    have hbegin := Progress.begin_ne hp.initial_ne_begin s
    have hcount : (s.begin initial).request.streamSize = m := by
      rw [Progress.begin_streamSize, hsize]
    rw [drop_take_append hm le rest.le] at h
    obtain ⟨u, hpart, hrest⟩ := h.of_append
    have hfit : (s.begin initial).request.streamSize + ((w.take k).drop m).length
        ≤ (w.take k).length := by
      rw [List.length_drop, List.length_take]
      omega
    have hwhole : Reads (wholeLookup w) (w.take k) :=
      (wholeLookup_reads w).of_front (List.take_prefix k w)
    obtain ⟨hstream, hinv⟩ := hp.counts hwhole hpart hfit (hp.begin hs) hbegin
    have hstream : u.request.streamSize = k := by
      rw [hstream, List.length_drop, List.length_take]
      omega
    have hu : u.begin initial = u := Progress.begin_of_ne (hp.ne_begin hpart) initial
    obtain ⟨t, ht, hfinal⟩ := ih le_length hstream hinv (hu.symm ▸ hrest)
    refine ⟨t, ?_, hfinal⟩
    rw [parserCalls, parsePart, (hp.congr hwhole reads hpart hfit (hp.begin hs)).scan_eq,
      Outcome.andThen_ok, ht]

/-! ## Calls of `parser_parse` -/

variable {acceptingSocket : ℕ} {ring : Ring} {rings : List Ring}

/-- Below the limit, `parser_parse` calls the parser function on both parts of what is not parsed. -/
theorem HoldsFront.parse_eq
    (hfunction : ∀ lookup, parserFunction acceptingSocket lookup = parsePart initial (step lookup))
    (hr : HoldsFront w m ring) (hw : w.length < maxRequestSize) (hsize : s.request.streamSize = m) :
    ∃ calls, Feeds w m calls ring.size ∧
      parserParse acceptingSocket ring s = parserCalls initial step calls s := by
  have hmax : maxRequestSize = 1048576 := rfl
  have hle := hr.size_le
  have hlt : ring.size < 2 ^ 64 := by omega
  obtain ⟨⟨hm, hend⟩, hpart0, hpart1, hreads0, hreads1⟩ := hr.parts (by omega)
  obtain ⟨-, -, hlookup⟩ := ringLookup_rest hr.sound hlt hr.parsed_le
  refine ⟨[(ringLookup ring, (w.take (partEnd m ring)).drop m),
    (ringLookup ring, (w.take ring.size).drop (partEnd m ring))],
    .cons hm (hend.trans hle) hreads0 (.cons hend hle hreads1 (.nil _)), ?_⟩
  rw [parserParse, parserParseWith, notParsedLocation_limit hlt (hsize ▸ hr.parsed_le)
    (hsize ▸ hr.parsed_le.trans (by omega)), Nat.min_eq_left (by omega), hsize, hlookup, hfunction,
    hpart0, hpart1]
  simp only [parserCalls, if_neg (show ¬ ring.size ≥ maxRequestSize by omega)]

/-- `parser_parse` leaves the header as it is, once it is complete. -/
theorem Resumes.parse_sameHeader (hp : Resumes Inv initial step)
    (hfunction : ∀ lookup, parserFunction acceptingSocket lookup = parsePart initial (step lookup))
    (hs : s.Headed) (h : parserParse acceptingSocket ring s = .ok () t) : SameHeader s t := by
  rw [parserParse, parserParseWith] at h
  split at h
  · cases h
  · rw [hfunction] at h
    obtain ⟨_, u, hu, h⟩ := Outcome.andThen_eq_ok.mp h
    obtain ⟨_, v, hv, h⟩ := Outcome.andThen_eq_ok.mp h
    have hsame := hp.part_sameHeader hs hu
    have hsame := hsame.trans (hp.part_sameHeader hsame.headed hv)
    split_ifs at h <;> obtain ⟨-, rfl⟩ := Outcome.ok.inj h <;> exact hsame

theorem Resumes.parses_sameHeader (hp : Resumes Inv initial step)
    (hfunction : ∀ lookup, parserFunction acceptingSocket lookup = parsePart initial (step lookup))
    (hs : s.Headed) (h : parserParses acceptingSocket rings s = .ok () t) : SameHeader s t := by
  induction rings generalizing s with
  | nil =>
    obtain ⟨-, rfl⟩ := Outcome.ok.inj h
    exact .refl hs
  | cons ring rings ih =>
    obtain ⟨_, u, hu, hrest⟩ := Outcome.andThen_eq_ok.mp h
    have hsame := hp.parse_sameHeader hfunction hs hu
    exact hsame.trans (ih hsame.headed hrest)

theorem Delivers.le_length (h : Delivers w m rings) : m ≤ w.length := by
  cases rings with
  | nil => exact h.le
  | cons ring rings => exact h.2.1.trans h.head.size_le

/-- A delivery that is parsed without an error was counted, up to the end of the header. -/
theorem Resumes.parses (hp : Resumes Inv initial step)
    (hfunction : ∀ lookup, parserFunction acceptingSocket lookup = parsePart initial (step lookup))
    (hw : w.length < maxRequestSize) (hr : Delivers w m rings) (hsize : s.request.streamSize = m)
    (hs : Inv s) (h : parserParses acceptingSocket rings s = .ok () t) :
    Counted Inv initial step w m w.length s t ∨ LeftHeader initial step w m w.length s t := by
  induction rings generalizing m s with
  | nil =>
    obtain ⟨-, rfl⟩ := Outcome.ok.inj h
    obtain rfl : m = w.length := hr
    exact .inl ⟨by rw [List.take_length, List.drop_length]; exact .nil _, hsize, hs⟩
  | cons ring rings ih =>
    obtain ⟨_, u, hu, hrest⟩ := Outcome.andThen_eq_ok.mp h
    obtain ⟨calls, hfeeds, hcalls⟩ := hr.head.parse_eq hfunction hw hsize
    rw [hcalls] at hu
    have hle := hr.head.size_le
    rcases hp.calls hfeeds hr.le_length hsize hs hu with hall | hleft
    · exact (ih hr.2.2.2 hall.streamSize hall.inv hrest).imp (hall.trans hle hr.head.parsed_le hle)
        (hall.trans_left hle hr.head.parsed_le)
    · exact .inr (hleft.trans hle fun hheaded => hp.parses_sameHeader hfunction hheaded hrest)

/-- A delivery of bytes that are counted whatever the parts are is parsed without an error. -/
theorem Resumes.parses_of_consumes (hp : Resumes Inv initial step)
    (hfunction : ∀ lookup, parserFunction acceptingSocket lookup = parsePart initial (step lookup))
    (hw : w.length < maxRequestSize) (hr : Delivers w m rings) (hsize : s.request.streamSize = m)
    (hs : Inv s) {final : Progress}
    (h : Consumes (step (wholeLookup w)) Progress.bump (w.drop m) (s.begin initial) final) :
    ∃ t, parserParses acceptingSocket rings s = .ok () t ∧ t.begin initial = final := by
  induction rings generalizing m s with
  | nil =>
    obtain rfl : m = w.length := hr
    rw [List.drop_length] at h
    cases h
    exact ⟨s, rfl, rfl⟩
  | cons ring rings ih =>
    have hle := hr.head.size_le
    have hsplit := drop_take_append hr.le_length hr.head.parsed_le hle
    rw [List.take_length] at hsplit
    rw [hsplit] at h
    obtain ⟨u, hfirst, hrest⟩ := h.of_append
    obtain ⟨calls, hfeeds, hcalls⟩ := hr.head.parse_eq (s := s) hfunction hw hsize
    obtain ⟨v, hv, rfl, hstream, hinv⟩ :=
      hp.calls_of_consumes hfeeds hr.le_length hsize hs hfirst
    obtain ⟨t, ht, hfinal⟩ := ih hr.2.2.2 hstream hinv hrest
    exact ⟨t, by rw [parserParses, hcalls, hv, Outcome.andThen_ok, ht], hfinal⟩

/-- A delivery of `w` ends the request exactly behind its last byte, when all of its bytes are counted
up to the end. A header that promises a content would have to promise another one than there is. -/
theorem Resumes.ends_iff (hp : Resumes Inv initial step)
    (hfunction : ∀ lookup, parserFunction acceptingSocket lookup = parsePart initial (step lookup))
    (hw : w.length < maxRequestSize) (hr : Delivers w 0 rings) (hzero : Inv Progress.zero)
    (hend : t.parser.state = .end)
    (hcontent : ∀ {cs header}, Consumes (step (wholeLookup w)) Progress.bump cs
      (Progress.zero.begin initial) header → header.parser.state = .waitContent →
        header.parser.remainingContent ≠ t.parser.remainingContent) :
    parserParses acceptingSocket rings Progress.zero = .ok () t ∧ t.request.streamSize = w.length ↔
      Consumes (step (wholeLookup w)) Progress.bump w (Progress.zero.begin initial) t := by
  have hbegin := Progress.begin_ne hp.initial_ne_begin Progress.zero
  have hcounts : ∀ {k : ℕ} {header : Progress}, k ≤ w.length →
      Consumes (step (wholeLookup w)) Progress.bump (w.take k) (Progress.zero.begin initial) header →
        header.request.streamSize = k := by
    intro k header hk hconsumes
    have hlength : (w.take k).length = k := by rw [List.length_take, Nat.min_eq_left hk]
    have hstart : (Progress.zero.begin initial).request.streamSize = 0 := Progress.begin_streamSize _ _
    obtain ⟨hstream, -⟩ := hp.counts (wholeLookup_reads w) hconsumes (by omega) (hp.begin hzero) hbegin
    omega
  constructor
  · rintro ⟨hparses, hsize⟩
    rcases hp.parses hfunction hw hr rfl hzero hparses with hall | hleft
    · have hconsumes := hall.counts
      have ht : t.begin initial = t :=
        Progress.begin_of_ne (fun hstate => absurd (hend.symm.trans hstate) (by decide)) initial
      rwa [List.take_length, List.drop_zero, ht] at hconsumes
    · obtain ⟨k, header, -, hk, hconsumes, hheaded, hsame⟩ := hleft
      rw [List.drop_zero] at hconsumes
      rcases hheaded with hstate | hstate
      · exact absurd hsame.remainingContent.symm (hcontent hconsumes hstate)
      · obtain rfl := hsame.ended hstate
        rwa [← hcounts hk hconsumes, hsize, List.take_length] at hconsumes
  · intro hconsumes
    obtain ⟨u, hparses, hu⟩ := hp.parses_of_consumes hfunction hw hr rfl hzero hconsumes
    obtain rfl := Progress.eq_of_begin_end hp.initial_ne_end hu hend
    refine ⟨hparses, hcounts le_rfl ?_⟩
    rwa [List.take_length]

end

/-! ## The parsers -/

/-- A parser of requests with a content counts and leaves its parts as it should. -/
theorem ContentParser.resumes {initial : ParserState} {step : Lookup → ParserStep}
    (hp : ContentParser initial step)
    (hend : ∀ {lookup n c s t}, s.parser.state = .end → step lookup n c s ≠ .ok .next t)
    (hhalt : ∀ {lookup n c s t}, s.parser.state ≠ .begin → step lookup n c s = .ok .halt t →
      s.parser.state = .waitContent ∨ s.parser.state = .end ∧ t = s) :
    Resumes (fun s => s.Within s.request.streamSize) initial step where
  initial_ne_begin := hp.initial_ne_begin
  initial_ne_end := hp.initial_ne_end
  begin {s} hs := by
    rw [Progress.begin_streamSize]
    exact hs.begin initial
  next h := ⟨(hp.next h).1, fun hstate => hend hstate h, (hp.next h).2⟩
  halt hbegin h := by
    rcases hhalt hbegin h with hstate | hended
    · rw [hp.content hstate] at h
      exact .inl ⟨hstate, (Outcome.ok.inj h).2.symm⟩
    · exact .inr hended
  counts hreads h hfit hs hbegin := by
    obtain ⟨hsize, hwithin, -⟩ := hp.consumes_within hreads h hfit hs hbegin
    exact ⟨hsize, hwithin⟩
  congr hreads hreads' h hfit hs := hp.consumes_congr hreads hreads' h hfit hs

theorem parserParseHttpStep_resumes :
    Resumes (fun s => s.Within s.request.streamSize) .waitMethodBegin parserParseHttpStep := by
  refine parserParseHttpStep_content.resumes ?_ ?_
  · intro lookup n c s t hstate h
    simp only [parserParseHttpStep, hstate] at h
    split at h <;> cases h
  · intro lookup n c s t hbegin h
    rcases parserParseHttpStep_content.halt h with hstate | rfl
    · exact .inl hstate
    · cases hstate : t.parser.state with
      | waitContent => exact .inl rfl
      | «end» => exact .inr ⟨rfl, rfl⟩
      | begin => exact absurd hstate hbegin
      | waitValueEnd =>
        simp only [parserParseHttpStep, hstate] at h
        split at h
        · cases h
        split at h
        · obtain ⟨_, u, -, h⟩ := Outcome.andThen_eq_ok.mp h
          split_ifs at h <;> cases h
        · cases h
      | _ =>
        simp only [parserParseHttpStep, hstate] at h
        split_ifs at h <;> cases h

theorem parserParseSpartanStep_resumes :
    Resumes (fun s => s.Within s.request.streamSize) .waitMethodEnd parserParseSpartanStep := by
  refine parserParseSpartanStep_content.resumes ?_ ?_
  · intro lookup n c s t hstate h
    simp [parserParseSpartanStep, hstate] at h
  · intro lookup n c s t hbegin h
    cases hstate : s.parser.state with
    | waitContent => exact .inl rfl
    | waitNameEnd =>
      simp only [parserParseSpartanStep, hstate] at h
      split at h
      · cases h
      split at h
      · obtain ⟨_, u, -, h⟩ := Outcome.andThen_eq_ok.mp h
        split_ifs at h <;> cases h
      · cases h
    | _ =>
      simp only [parserParseSpartanStep, hstate] at h
      try split_ifs at h
      all_goals cases h

/-- A parser that looks nothing up and never leaves a part. -/
def PlainStep (step : ParserStep) : Prop :=
  ∀ {n : ℕ} {c : UInt8} {s t : Progress} {flow : Flow}, step n c s = .ok flow t →
    flow = .next ∧ s.parser.state ≠ .waitContent ∧ s.parser.state ≠ .end ∧
      t.parser.state ≠ .begin ∧ t.request.streamSize = s.request.streamSize ∧
      t.parser.state ≠ .waitContent ∧ t.parser.remainingContent = s.parser.remainingContent ∧
      ∀ available, step available c s = .ok .next t

/-- It counts the bytes, and promises no content. -/
theorem PlainStep.consumes {step : ParserStep} (hp : PlainStep step) {cs : List UInt8}
    {s t : Progress} (h : Consumes step Progress.bump cs s t) :
    t.request.streamSize = s.request.streamSize + cs.length ∧
      t.parser.remainingContent = s.parser.remainingContent ∧
      (s.parser.state ≠ .waitContent → t.parser.state ≠ .waitContent) := by
  induction h with
  | nil s => exact ⟨rfl, rfl, id⟩
  | @cons c cs s t u head tail ih =>
    obtain ⟨-, -, -, -, hsize, hcontent, hremaining, -⟩ := hp (head 1)
    refine ⟨?_, ih.2.1.trans hremaining, fun _ => ih.2.2 hcontent⟩
    rw [ih.1, Progress.bump_streamSize, hsize, List.length_cons]
    omega

theorem PlainStep.resumes {initial : ParserState} {step : ParserStep} (hp : PlainStep step)
    (hbegin : initial ≠ .begin) (hend : initial ≠ .end) :
    Resumes (fun _ => True) initial fun _ => step where
  initial_ne_begin := hbegin
  initial_ne_end := hend
  begin _ := trivial
  next h := by
    obtain ⟨-, hcontent, hend, hne, -, -, -, hall⟩ := hp h
    exact ⟨hcontent, hend, hne, hall⟩
  halt _ h := absurd (hp h).1 (by decide)
  counts _ h _ _ _ := ⟨(hp.consumes h).1, trivial⟩
  congr _ _ h _ _ := h

theorem parserParseGopherStep_plain : PlainStep parserParseGopherStep := by
  intro n c s t flow h
  cases hstate : s.parser.state with
  | _ =>
    simp only [parserParseGopherStep, hstate] at h
    try split_ifs at h
    all_goals cases h
    all_goals simp_all [parserParseGopherStep]

theorem parserParseFingerStep_plain : PlainStep parserParseFingerStep := by
  intro n c s t flow h
  cases hstate : s.parser.state with
  | _ =>
    simp only [parserParseFingerStep, hstate] at h
    try split_ifs at h
    all_goals cases h
    all_goals simp_all [parserParseFingerStep]

theorem parserParseGeminiLikeStep_plain (protocol : List UInt8) :
    PlainStep (parserParseGeminiLikeStep protocol) := by
  intro n c s t flow h
  cases hstate : s.parser.state with
  | _ =>
    simp only [parserParseGeminiLikeStep, hstate] at h
    try split_ifs at h
    all_goals cases h
    all_goals simp_all [parserParseGeminiLikeStep]

end Twinkleshine
