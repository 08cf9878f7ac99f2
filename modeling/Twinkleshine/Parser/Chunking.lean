import Twinkleshine.Parser.Resumable

/-!
# Requests that arrive in chunks

A request of the HTTP or Spartan parser is a header, which is counted byte by byte, and a content. The
progress in the header survives every cut. The content does not: when a part ends inside it, the bytes
counted are not taken off `remaining_content`, and the parser waits for them again.
-/

namespace Twinkleshine

open Library

/-! ## Deliveries -/

/-- A stream in one contiguous part. -/
def contiguousRing (w : List UInt8) : Ring := ⟨w, w.length, w.length, 0⟩

/-- Successive calls of `parser_parse`, with the ring each of them finds. -/
def parserParses (acceptingSocket : ℕ) : List Ring → Progress → Outcome ExError Progress Unit
  | [], s => .ok () s
  | ring :: rings, s =>
    (parserParse acceptingSocket ring s).andThen fun _ s => parserParses acceptingSocket rings s

/-- The rings hold growing fronts of `w`, from `parsed` bytes on and up to the whole of it. -/
def Delivers (w : List UInt8) : ℕ → List Ring → Prop
  | parsed, [] => parsed = w.length
  | parsed, ring :: rings =>
    ring.Sound ∧ parsed ≤ ring.size ∧ ringContent ring = w.take ring.size ∧
      Delivers w ring.size rings

/-- Where the first part of the bytes from `parsed` on ends: at the edge of the block, if they wrap
around it. -/
def partEnd (parsed : ℕ) (ring : Ring) : ℕ :=
  if parsed < ring.capacity - ring.begin ∧ ring.capacity - ring.begin < ring.size then
    ring.capacity - ring.begin
  else ring.size

/-- Where the parts end that are handed to the parser. -/
def deliveryEnds : ℕ → List Ring → List ℕ
  | _, [] => []
  | parsed, ring :: rings => partEnd parsed ring :: ring.size :: deliveryEnds ring.size rings

/-- The parser, given `w` in one part, reaches `RPS_END` exactly after its last byte. -/
def ParsesWhole (acceptingSocket : ℕ) (w : List UInt8) (request : Request) : Prop :=
  ∃ parser, parserParse acceptingSocket (contiguousRing w) Progress.zero = .ok () ⟨parser, request⟩ ∧
    parser.state = .end ∧ request.streamSize = w.length

/-- After the bytes of `w`, the parser waits for a content. -/
def waitsForContent (acceptingSocket : ℕ) (w : List UInt8) : Bool :=
  match parserParse acceptingSocket (contiguousRing w) Progress.zero with
  | .ok _ s => s.parser.state == .waitContent
  | _ => false

/-- The size of the header of `w`: the first bytes of `w` after which the parser waits for a content,
or the whole of it. -/
def headerSize (acceptingSocket : ℕ) (w : List UInt8) : ℕ :=
  ((List.range w.length).find? fun n => waitsForContent acceptingSocket (w.take n)).getD w.length

/-! ## Parts of a ring -/

theorem contiguousRing_sound (w : List UInt8) : (contiguousRing w).Sound :=
  ⟨rfl, le_refl _, Nat.zero_le _⟩

@[simp] theorem ringContent_contiguousRing (w : List UInt8) : ringContent (contiguousRing w) = w := by
  show window w 0 w.length = w
  rw [window_of_fits (by omega), List.drop_zero, List.take_length]

/-- A segment of a list is cut at `n`. -/
theorem drop_take_append {w : List UInt8} {m n h : ℕ} (hm : m ≤ w.length) (hmn : m ≤ n)
    (hnh : n ≤ h) : (w.take h).drop m = (w.take n).drop m ++ (w.take h).drop n := by
  conv_lhs => rw [← List.take_append_drop n (w.take h), List.take_take, Nat.min_eq_left hnh]
  rw [List.drop_append_of_le_length (by rw [List.length_take]; omega)]

/-- The bytes from `parsed` on, in the parts `ring_get` makes of them. -/
theorem ringLookup_rest {ring : Ring} (h : ring.Sound) (hsize : ring.size < 2 ^ 64) {parsed : ℕ}
    (hparsed : parsed ≤ ring.size) :
    parsed ≤ partEnd parsed ring ∧ partEnd parsed ring ≤ ring.size ∧
      ringLookup ring ⟨parsed, ring.size - parsed⟩
        = .ok ⟨((ringContent ring).take (partEnd parsed ring)).drop parsed,
            (ringContent ring).drop (partEnd parsed ring)⟩ := by
  have hp := h.length_p
  have hs := h.size_le
  have hb := h.begin_le
  have hlimit : (⟨parsed, ring.size - parsed⟩ : ValueLocation).limit ≤ ring.size := by
    simp only [ValueLocation.limit]
    omega
  have hle : parsed ≤ partEnd parsed ring := by
    rw [partEnd]
    split_ifs <;> omega
  have hend : partEnd parsed ring ≤ ring.size := by
    rw [partEnd]
    split_ifs <;> omega
  obtain ⟨value, hget, hview⟩ := ringGet_spec h hsize hlimit false
  have hbytes : (value.read ring.p).bytes = (ringContent ring).drop parsed := by
    rw [hview.bytes, segment, ValueLocation.start, if_neg (by decide),
      List.take_of_length_le (by rw [List.length_drop, h.length_content])]
  -- the first part reaches to the end of the ring, or to the last byte in front of it
  have hfirst : (value.part0.read ring.p).length = partEnd parsed ring - parsed := by
    have htotal : parsed + (ring.size - parsed) ≤ ring.size := hlimit
    simp only [ringGet, sizeAdd_eq (show parsed + (ring.size - parsed) < 2 ^ 64 by omega),
      if_pos htotal, Bool.false_eq_true, if_false, ringParts] at hget
    simp only [partEnd]
    split_ifs at hget ⊢ <;> obtain rfl := Except.ok.inj hget <;>
      simp only [MutableValue.zero, MutableContinuousValue.read, List.length_take,
        List.length_drop] <;>
      omega
  have hsplit := drop_take_append (h.length_content.symm ▸ hparsed) hle
    (h.length_content.symm ▸ hend)
  rw [List.take_length] at hsplit
  obtain ⟨h0, h1⟩ := List.append_inj (hbytes.trans hsplit) (by
    rw [MutableValue.read, hfirst, List.length_drop, List.length_take, h.length_content]
    omega)
  refine ⟨hle, hend, ?_⟩
  rw [ringLookup, hget, Except.map, ← h0, ← h1]

/-! ## Header and content -/

theorem contiguousRing_reads {w : List UInt8} (hsize : w.length < 2 ^ 64) :
    Reads (ringLookup (contiguousRing w)) w := by
  have h := ringLookup_reads (contiguousRing_sound w) hsize
  rwa [ringContent_contiguousRing] at h

/-- How a request that was parsed in one part divides: the parser counts the first `h` bytes one by
one and is left in `header`; if there are more, it waits for exactly those, and takes them all. -/
structure Divides (initial : ParserState) (step : Lookup → ParserStep) (w : List UInt8) (h : ℕ)
    (header final : Progress) : Prop where
  header_le : h ≤ w.length
  size_le : w.length ≤ maxRequestSize
  counts : Consumes (step (ringLookup (contiguousRing w))) Progress.bump (w.take h)
    (Progress.zero.begin initial) header
  waits : h < w.length →
    header.parser.state = .waitContent ∧ header.parser.remainingContent = w.length - h
  final_eq : final = if h < w.length then parseContent (w.length - h) header else header
  ends : final.parser.state = .end
  streamSize_eq : final.request.streamSize = w.length

section

variable {acceptingSocket : ℕ} {initial : ParserState} {step : Lookup → ParserStep}
  {w : List UInt8} {h m n : ℕ} {header final s : Progress} {ring : Ring} {rings : List Ring}

theorem Divides.size_lt (hd : Divides initial step w h header final) : w.length < 2 ^ 64 := by
  have hmax : maxRequestSize = 1048576 := rfl
  have := hd.size_le
  omega

theorem Divides.reads (hd : Divides initial step w h header final) :
    Reads (ringLookup (contiguousRing w)) w := contiguousRing_reads hd.size_lt

/-- `parser_parse` hands the bytes that are not parsed yet to the parser in two parts. -/
theorem ContentFunction.parse_eq (hp : ContentFunction acceptingSocket initial step)
    (hring : ring.Sound) (hsize : ring.size ≤ maxRequestSize) (hs : s.request.streamSize ≤ ring.size) :
    parserParse acceptingSocket ring s =
      (parsePart initial (step (ringLookup ring)) (((ringContent ring).take
        (partEnd s.request.streamSize ring)).drop s.request.streamSize) s).andThen fun _ t =>
      (parsePart initial (step (ringLookup ring)) ((ringContent ring).drop
        (partEnd s.request.streamSize ring)) t).andThen fun _ u =>
      if ring.size ≥ maxRequestSize then
        if u.parser.state = .end then .ok () u
        else .error ⟨"Actual request size exceeded", .sendShutdownLog .maxRequestHeaderSize⟩ u
      else .ok () u := by
  have hmax : maxRequestSize = 1048576 := rfl
  have hlt : ring.size < 2 ^ 64 := by omega
  obtain ⟨-, -, hlookup⟩ := ringLookup_rest hring hlt hs
  rw [parserParse, parserParseWith, notParsedLocation_limit hlt hs (hs.trans hsize),
    Nat.min_eq_left hsize, hlookup, hp.function_eq]

/-- A request that was parsed in one part is a header and a content. -/
theorem ContentFunction.divides (hp : ContentFunction acceptingSocket initial step)
    (hsize : w.length < 2 ^ 64)
    (hparse : parserParse acceptingSocket (contiguousRing w) Progress.zero = .ok () final)
    (hend : final.parser.state = .end) (hstream : final.request.streamSize = w.length) :
    ∃ h header, Divides initial step w h header final := by
  have hreads := contiguousRing_reads hsize
  have hmax : w.length ≤ maxRequestSize := by
    have hensures := parserParseWith_ensures hreads hsize
      (Progress.zero_parseInv acceptingSocket w.length)
    exact hstream ▸ (hensures.of_eq_ok hparse).1.streamSize_le_max
  have hscan : scan (step (ringLookup (contiguousRing w))) Progress.bump w
      (Progress.zero.begin initial) = .ok () final := by
    have hedge : partEnd Progress.zero.request.streamSize (contiguousRing w) = w.length := by
      simp [partEnd, contiguousRing]
    rw [hp.parse_eq (contiguousRing_sound w) hmax (Nat.zero_le _), hedge,
      ringContent_contiguousRing, List.take_length, List.drop_length] at hparse
    obtain ⟨_, t, ht, hrest⟩ := Outcome.andThen_eq_ok.mp hparse
    rw [parsePart, scan_nil, Outcome.andThen_ok] at hrest
    have hfinal : t.begin initial = final := by
      split_ifs at hrest <;> exact (Outcome.ok.inj hrest).2
    have htbegin : t.parser.state ≠ .begin := fun hstate => by
      rw [← hfinal, Progress.begin, if_pos hstate] at hend
      exact hp.initial_ne_end hend
    rwa [← hfinal, Progress.begin_of_ne htbegin]
  have hbegin : (Progress.zero.begin initial).parser.state ≠ .begin :=
    Progress.begin_ne hp.initial_ne_begin _
  have hnext : ∀ n c s t, step (ringLookup (contiguousRing w)) n c s = .ok .next t →
      ∀ available, step (ringLookup (contiguousRing w)) available c s = .ok .next t :=
    fun _ _ _ _ ht => (hp.next ht).2.2
  obtain hall | ⟨ds, c, es, u, hw, hds, hhalt⟩ := Consumes.of_scan hnext hscan
  · -- there is no content
    exact ⟨w.length, final, le_refl _, hmax, by rwa [List.take_length], fun hlt => absurd hlt
      (lt_irrefl _), by rw [if_neg (lt_irrefl _)], hend, hstream⟩
  · have hlength := congrArg List.length hw
    rw [List.length_append, List.length_cons] at hlength
    obtain ⟨hcount, -, -⟩ := hp.consumes_within hreads hds (by
      rw [Progress.begin_streamSize]
      show 0 + ds.length ≤ w.length
      omega) ((Progress.zero_within _).begin initial) hbegin
    have hcount : u.request.streamSize = ds.length := by
      rw [hcount, Progress.begin_streamSize]
      exact Nat.zero_add _
    obtain hwait | rfl := hp.halt hhalt
    · rw [hp.content hwait] at hhalt
      obtain ⟨-, rfl⟩ := Outcome.ok.inj hhalt
      have hremaining : u.parser.remainingContent = es.length + 1 := by
        rw [parseContent] at hstream hend
        split_ifs at hstream hend with henough
        · simp only at hstream
          omega
        · exact absurd (hwait.symm.trans hend) (by decide)
      have htake : w.take ds.length = ds := by rw [hw, List.take_left]
      refine ⟨ds.length, u, by omega, hmax, by rwa [htake], fun _ => ⟨hwait, by omega⟩, ?_, hend,
        hstream⟩
      rw [if_pos (by omega), show w.length - ds.length = es.length + 1 by omega]
    · omega

/-! ## Progress that survives a cut, and progress that does not -/

/-- The first `n` bytes are counted, and what is left of the header will be. -/
structure Reading (initial : ParserState) (step : Lookup → ParserStep) (w : List UInt8) (h : ℕ)
    (header : Progress) (n : ℕ) (s : Progress) : Prop where
  le_header : n ≤ h
  incomplete : n < w.length
  streamSize_eq : s.request.streamSize = n
  within : s.Within n
  remaining : Consumes (step (ringLookup (contiguousRing w))) Progress.bump ((w.take h).drop n)
    (s.begin initial) header

/-- Nothing was lost so far: the parser is reading the header, or it is done. -/
def Live (initial : ParserState) (step : Lookup → ParserStep) (w : List UInt8) (h : ℕ)
    (header final : Progress) (n : ℕ) (s : Progress) : Prop :=
  Reading initial step w h header n s ∨ n = w.length ∧ s = final

/-- The first `n` bytes are counted, some of the content among them, but the parser still waits for
the whole content. -/
structure Stuck (w : List UInt8) (h n : ℕ) (s : Progress) : Prop where
  header_lt : h < n
  le_length : n ≤ w.length
  state_eq : s.parser.state = .waitContent
  remaining_eq : s.parser.remainingContent = w.length - h
  streamSize_eq : s.request.streamSize = n

theorem Divides.zero_reading (hp : ContentParser initial step)
    (hd : Divides initial step w h header final) :
    Reading initial step w h header 0 Progress.zero := by
  refine ⟨Nat.zero_le _, ?_, rfl, Progress.zero_within _, hd.counts⟩
  by_contra hnil
  obtain rfl : w = [] := List.eq_nil_of_length_eq_zero (by omega)
  have hcounts := hd.counts
  rw [List.take_nil] at hcounts
  cases hcounts
  have hfinal := hd.final_eq
  rw [if_neg (by simp)] at hfinal
  have hends := hd.ends
  rw [hfinal] at hends
  exact hp.initial_ne_end hends

theorem Live.streamSize_eq (hd : Divides initial step w h header final)
    (hs : Live initial step w h header final n s) : s.request.streamSize = n := by
  obtain hs | ⟨rfl, rfl⟩ := hs
  · exact hs.streamSize_eq
  · exact hd.streamSize_eq

/-- The bytes of the header are counted whoever looks them up. -/
theorem Reading.counts (hp : ContentParser initial step)
    (hd : Divides initial step w h header final) (hs : Reading initial step w h header m s)
    {lookup : Lookup} (hreads : Reads lookup (w.take n)) (hmn : m ≤ n) (hn : n ≤ h) :
    ∃ t, Consumes (step lookup) Progress.bump ((w.take n).drop m) (s.begin initial) t ∧
      Consumes (step (ringLookup (contiguousRing w))) Progress.bump ((w.take h).drop n) t header ∧
      t.request.streamSize = n ∧ t.Within n ∧ t.parser.state ≠ .begin := by
  have hle := hd.header_le
  have hbegin := Progress.begin_ne hp.initial_ne_begin s
  have hsize : (s.begin initial).request.streamSize = m := by
    rw [Progress.begin_streamSize, hs.streamSize_eq]
  have hwithin : (s.begin initial).Within (s.begin initial).request.streamSize := by
    rw [hsize]
    exact hs.within.begin initial
  have htake : (w.take n).length = n := by rw [List.length_take, Nat.min_eq_left (by omega)]
  have hfit : (s.begin initial).request.streamSize + ((w.take n).drop m).length
      ≤ (w.take n).length := by
    rw [List.length_drop]
    omega
  have hremaining := hs.remaining
  rw [drop_take_append (by omega) hmn hn] at hremaining
  obtain ⟨t, hpart, hrest⟩ := hremaining.of_append
  have hread := hd.reads.of_front (List.take_prefix n w)
  obtain ⟨hcount, htwithin, htbegin⟩ := hp.consumes_within hread hpart hfit hwithin hbegin
  have hcount : t.request.streamSize = n := by
    rw [hcount, hsize, List.length_drop]
    omega
  exact ⟨t, hp.consumes_congr hread hreads hpart hfit hwithin, hrest, hcount, hcount ▸ htwithin,
    htbegin⟩

/-- A part that ends in the header is counted. -/
theorem Reading.part_header (hp : ContentParser initial step)
    (hd : Divides initial step w h header final) (hs : Reading initial step w h header m s)
    {lookup : Lookup} (hreads : Reads lookup (w.take n)) (hmn : m ≤ n) (hn : n ≤ h) :
    ∃ t, parsePart initial (step lookup) ((w.take n).drop m) s = .ok () t ∧
      Live initial step w h header final n t := by
  have hle := hd.header_le
  obtain ⟨t, hpart, hrest, hcount, hwithin, hbegin⟩ := hs.counts hp hd hreads hmn hn
  refine ⟨t, hpart.scan_eq, ?_⟩
  obtain hlt | heq : n < w.length ∨ n = w.length := by omega
  · exact .inl ⟨hn, hlt, hcount, hwithin, by rwa [Progress.begin_of_ne hbegin]⟩
  · rw [List.drop_eq_nil_of_le (by rw [List.length_take]; omega)] at hrest
    cases hrest
    exact .inr ⟨heq, by rw [hd.final_eq, if_neg (by omega)]⟩

/-- A part that ends behind the header takes what there is of the content. -/
theorem Reading.part_content (hp : ContentParser initial step)
    (hd : Divides initial step w h header final) (hs : Reading initial step w h header m s)
    {lookup : Lookup} (hreads : Reads lookup (w.take n)) (hhn : h < n) (hn : n ≤ w.length) :
    parsePart initial (step lookup) ((w.take n).drop m) s = .ok () (parseContent (n - h) header) ∧
      header.request.streamSize = h := by
  have hreads' : Reads lookup (w.take h) := by
    refine hreads.of_front ?_
    rw [show w.take h = (w.take n).take h by rw [List.take_take, Nat.min_eq_left hhn.le]]
    exact List.take_prefix _ _
  obtain ⟨t, hpart, hrest, hcount, -, -⟩ := hs.counts hp hd hreads' hs.le_header (le_refl h)
  rw [List.drop_eq_nil_of_le (by rw [List.length_take]; omega)] at hrest
  cases hrest
  refine ⟨?_, hcount⟩
  have hlength : ((w.take n).drop h).length = n - h := by
    rw [List.length_drop, List.length_take, Nat.min_eq_left hn]
  rw [parsePart, drop_take_append (hs.le_header.trans hd.header_le) hs.le_header hhn.le,
    hpart.scan_append]
  cases hcontent : (w.take n).drop h with
  | nil =>
    rw [hcontent, List.length_nil] at hlength
    omega
  | cons c cs =>
    rw [hcontent, List.length_cons] at hlength
    rw [scan, hp.content (hd.waits (by omega)).1, hlength]
    rfl

/-- Whether a part may end at `n`: not inside the content. -/
def OutsideContent (w : List UInt8) (h n : ℕ) : Prop := n ≤ h ∨ w.length ≤ n

/-- A part that does not end inside the content loses nothing. -/
theorem Live.part (hp : ContentParser initial step) (hd : Divides initial step w h header final)
    (hs : Live initial step w h header final m s) {lookup : Lookup}
    (hreads : Reads lookup (w.take n)) (hmn : m ≤ n) (hn : n ≤ w.length)
    (houtside : OutsideContent w h n) :
    ∃ t, parsePart initial (step lookup) ((w.take n).drop m) s = .ok () t ∧
      Live initial step w h header final n t := by
  obtain hs | ⟨rfl, rfl⟩ := hs
  · by_cases hheader : n ≤ h
    · exact hs.part_header hp hd hreads hmn hheader
    · obtain rfl : n = w.length := by
        obtain hle | hle := houtside <;> omega
      obtain ⟨hpart, -⟩ := hs.part_content hp hd hreads (by omega) (le_refl _)
      exact ⟨_, hpart, .inr ⟨rfl, by rw [hd.final_eq, if_pos (by omega)]⟩⟩
  · obtain rfl : n = w.length := by omega
    refine ⟨s, ?_, .inr ⟨rfl, rfl⟩⟩
    rw [List.take_length, List.drop_length, parsePart, scan_nil,
      Progress.begin_of_ne (by rw [hd.ends]; decide)]

/-- A part that ends inside the content leaves the parser waiting for the whole of it. -/
theorem Live.part_stuck (hp : ContentParser initial step)
    (hd : Divides initial step w h header final) (hs : Live initial step w h header final m s)
    {lookup : Lookup} (hreads : Reads lookup (w.take n)) (hmn : m ≤ n) (hn : n ≤ w.length)
    (hinside : ¬ OutsideContent w h n) :
    ∃ t, parsePart initial (step lookup) ((w.take n).drop m) s = .ok () t ∧ Stuck w h n t := by
  simp only [OutsideContent, not_or, not_le] at hinside
  obtain hs | ⟨rfl, rfl⟩ := hs
  · obtain ⟨hpart, hsize⟩ := hs.part_content hp hd hreads hinside.1 hn
    obtain ⟨hstate, hremaining⟩ := hd.waits (by omega)
    refine ⟨_, hpart, ?_⟩
    rw [parseContent, if_neg (by omega)]
    exact ⟨hinside.1, hn, hstate, hremaining, by simp only; omega⟩
  · omega

/-- A parser that waits for the whole content again never gets it. -/
theorem Stuck.part (hp : ContentParser initial step) (hs : Stuck w h m s) (lookup : Lookup)
    (hmn : m ≤ n) (hn : n ≤ w.length) :
    ∃ t, parsePart initial (step lookup) ((w.take n).drop m) s = .ok () t ∧ Stuck w h n t := by
  have hlt := hs.header_lt
  have hlength : ((w.take n).drop m).length = n - m := by
    rw [List.length_drop, List.length_take, Nat.min_eq_left hn]
  rw [parsePart, Progress.begin_of_ne (by rw [hs.state_eq]; decide)]
  cases hcontent : (w.take n).drop m with
  | nil =>
    rw [hcontent, List.length_nil] at hlength
    obtain rfl : m = n := by omega
    exact ⟨s, rfl, hs⟩
  | cons c cs =>
    rw [hcontent, List.length_cons] at hlength
    have hremaining := hs.remaining_eq
    refine ⟨parseContent (n - m) s, ?_, ?_⟩
    · rw [scan, hp.content hs.state_eq, hlength]
      rfl
    · rw [parseContent, if_neg (by omega)]
      have hsize := hs.streamSize_eq
      exact ⟨by omega, hn, hs.state_eq, hs.remaining_eq, by simp only; omega⟩

/-! ## Calls of `parser_parse` -/

/-- A ring that holds the first bytes of `w`. -/
structure HoldsFront (w : List UInt8) (m : ℕ) (ring : Ring) : Prop where
  sound : ring.Sound
  parsed_le : m ≤ ring.size
  content : ringContent ring = w.take ring.size

theorem HoldsFront.size_le (hr : HoldsFront w m ring) : ring.size ≤ w.length := by
  have hlength := congrArg List.length hr.content
  rw [hr.sound.length_content, List.length_take] at hlength
  omega

/-- The two parts of such a ring. -/
theorem HoldsFront.parts (hr : HoldsFront w m ring) (hsize : w.length < 2 ^ 64) :
    (m ≤ partEnd m ring ∧ partEnd m ring ≤ ring.size) ∧
      ((ringContent ring).take (partEnd m ring)).drop m = (w.take (partEnd m ring)).drop m ∧
      (ringContent ring).drop (partEnd m ring) = (w.take ring.size).drop (partEnd m ring) ∧
      Reads (ringLookup ring) (w.take (partEnd m ring)) ∧
      Reads (ringLookup ring) (w.take ring.size) := by
  have hlt : ring.size < 2 ^ 64 := hr.size_le.trans_lt hsize
  obtain ⟨hle, hend, -⟩ := ringLookup_rest hr.sound hlt hr.parsed_le
  have htake : (w.take ring.size).take (partEnd m ring) = w.take (partEnd m ring) := by
    rw [List.take_take, Nat.min_eq_left hend]
  have hreads := ringLookup_reads hr.sound hlt
  rw [hr.content] at hreads ⊢
  refine ⟨⟨hle, hend⟩, by rw [htake], rfl, hreads.of_front ?_, hreads⟩
  rw [← htake]
  exact List.take_prefix _ _

/-- A call whose parts do not end inside the content loses nothing. -/
theorem Live.parse (hp : ContentFunction acceptingSocket initial step)
    (hd : Divides initial step w h header final) (hs : Live initial step w h header final m s)
    (hr : HoldsFront w m ring) (hfirst : OutsideContent w h (partEnd m ring))
    (hsecond : OutsideContent w h ring.size) :
    ∃ t, parserParse acceptingSocket ring s = .ok () t ∧
      Live initial step w h header final ring.size t := by
  have hsize := hs.streamSize_eq hd
  obtain ⟨⟨hle, hend⟩, hpart0, hpart1, hreads0, hreads1⟩ := hr.parts hd.size_lt
  rw [hp.parse_eq hr.sound (hr.size_le.trans hd.size_le) (hsize ▸ hr.parsed_le), hsize, hpart0,
    hpart1]
  obtain ⟨t, ht, hlive⟩ := hs.part hp.toContentParser hd hreads0 hle (hend.trans hr.size_le) hfirst
  obtain ⟨u, hu, hlive⟩ := hlive.part hp.toContentParser hd hreads1 hend hr.size_le hsecond
  refine ⟨u, ?_, hlive⟩
  rw [ht, Outcome.andThen_ok, hu, Outcome.andThen_ok]
  split_ifs with hfull hstate
  · rfl
  · -- the ring holds all of the request, so the parser is done
    refine absurd ?_ hstate
    have := hr.size_le
    have := hd.size_le
    obtain hread | ⟨-, rfl⟩ := hlive
    · have := hread.incomplete
      omega
    · exact hd.ends
  · rfl

/-- A call of which a part ends inside the content leaves the parser stuck, if it returns. -/
theorem Live.parse_stuck (hp : ContentFunction acceptingSocket initial step)
    (hd : Divides initial step w h header final) (hs : Live initial step w h header final m s)
    (hr : HoldsFront w m ring)
    (hinside : ¬ (OutsideContent w h (partEnd m ring) ∧ OutsideContent w h ring.size))
    {t : Progress} (ht : parserParse acceptingSocket ring s = .ok () t) : Stuck w h ring.size t := by
  have hsize := hs.streamSize_eq hd
  obtain ⟨⟨hle, hend⟩, hpart0, hpart1, hreads0, hreads1⟩ := hr.parts hd.size_lt
  rw [hp.parse_eq hr.sound (hr.size_le.trans hd.size_le) (hsize ▸ hr.parsed_le), hsize, hpart0,
    hpart1] at ht
  obtain ⟨v, u, hv, hu, hstuck⟩ : ∃ v u,
      parsePart initial (step (ringLookup ring)) ((w.take (partEnd m ring)).drop m) s = .ok () v ∧
      parsePart initial (step (ringLookup ring)) ((w.take ring.size).drop (partEnd m ring)) v
        = .ok () u ∧ Stuck w h ring.size u := by
    by_cases hfirst : OutsideContent w h (partEnd m ring)
    · obtain ⟨v, hv, hlive⟩ :=
        hs.part hp.toContentParser hd hreads0 hle (hend.trans hr.size_le) hfirst
      obtain ⟨u, hu, hstuck⟩ := hlive.part_stuck hp.toContentParser hd hreads1 hend hr.size_le
        fun hsecond => hinside ⟨hfirst, hsecond⟩
      exact ⟨v, u, hv, hu, hstuck⟩
    · obtain ⟨v, hv, hstuck⟩ :=
        hs.part_stuck hp.toContentParser hd hreads0 hle (hend.trans hr.size_le) hfirst
      obtain ⟨u, hu, hstuck⟩ := hstuck.part hp.toContentParser (ringLookup ring) hend hr.size_le
      exact ⟨v, u, hv, hu, hstuck⟩
  rw [hv, Outcome.andThen_ok, hu, Outcome.andThen_ok] at ht
  split_ifs at ht <;> exact (Outcome.ok.inj ht).2 ▸ hstuck

theorem Stuck.parse (hp : ContentFunction acceptingSocket initial step) (hw : w.length ≤ maxRequestSize)
    (hs : Stuck w h m s) (hr : HoldsFront w m ring) {t : Progress}
    (ht : parserParse acceptingSocket ring s = .ok () t) : Stuck w h ring.size t := by
  have hmax : maxRequestSize = 1048576 := rfl
  have hsize := hs.streamSize_eq
  obtain ⟨⟨hle, hend⟩, hpart0, hpart1, -, -⟩ := hr.parts (by omega)
  rw [hp.parse_eq hr.sound (hr.size_le.trans hw) (hsize ▸ hr.parsed_le), hsize, hpart0, hpart1] at ht
  obtain ⟨v, hv, hstuck⟩ := hs.part hp.toContentParser (ringLookup ring) hle (hend.trans hr.size_le)
  obtain ⟨u, hu, hstuck⟩ := hstuck.part hp.toContentParser (ringLookup ring) hend hr.size_le
  rw [hv, Outcome.andThen_ok, hu, Outcome.andThen_ok] at ht
  split_ifs at ht <;> exact (Outcome.ok.inj ht).2 ▸ hstuck

/-! ## Deliveries of a request -/

theorem Delivers.head (h : Delivers w m (ring :: rings)) : HoldsFront w m ring :=
  ⟨h.1, h.2.1, h.2.2.1⟩

/-- A delivery whose parts do not end inside the content gives the request. -/
theorem Live.parses (hp : ContentFunction acceptingSocket initial step)
    (hd : Divides initial step w h header final) (hs : Live initial step w h header final m s)
    (hr : Delivers w m rings) (houtside : ∀ n ∈ deliveryEnds m rings, OutsideContent w h n) :
    parserParses acceptingSocket rings s = .ok () final := by
  induction rings generalizing m s with
  | nil =>
    obtain hread | ⟨-, rfl⟩ := hs
    · exact absurd hr hread.incomplete.ne
    · rfl
  | cons ring rings ih =>
    simp only [deliveryEnds, List.forall_mem_cons] at houtside
    obtain ⟨hfirst, hsecond, hrest⟩ := houtside
    obtain ⟨t, ht, hlive⟩ := hs.parse hp hd hr.head hfirst hsecond
    rw [parserParses, ht, Outcome.andThen_ok]
    exact ih hlive hr.2.2.2 hrest

theorem Stuck.parses (hp : ContentFunction acceptingSocket initial step)
    (hw : w.length ≤ maxRequestSize) (hs : Stuck w h m s) (hr : Delivers w m rings) {t : Progress}
    (ht : parserParses acceptingSocket rings s = .ok () t) : t.parser.state = .waitContent := by
  induction rings generalizing m s with
  | nil =>
    obtain ⟨-, rfl⟩ := Outcome.ok.inj ht
    exact hs.state_eq
  | cons ring rings ih =>
    obtain ⟨_, u, hu, ht⟩ := Outcome.andThen_eq_ok.mp ht
    exact ih (hs.parse hp hw hr.head hu) hr.2.2.2 ht

/-- A delivery of which a part ends inside the content leaves the parser waiting. -/
theorem Live.parses_stuck (hp : ContentFunction acceptingSocket initial step)
    (hd : Divides initial step w h header final) (hs : Live initial step w h header final m s)
    (hr : Delivers w m rings) (hinside : ¬ ∀ n ∈ deliveryEnds m rings, OutsideContent w h n)
    {t : Progress} (ht : parserParses acceptingSocket rings s = .ok () t) :
    t.parser.state = .waitContent := by
  induction rings generalizing m s with
  | nil => exact absurd (by simp [deliveryEnds]) hinside
  | cons ring rings ih =>
    obtain ⟨_, u, hu, ht⟩ := Outcome.andThen_eq_ok.mp ht
    by_cases hfirst : OutsideContent w h (partEnd m ring) ∧ OutsideContent w h ring.size
    · obtain ⟨v, hv, hlive⟩ := hs.parse hp hd hr.head hfirst.1 hfirst.2
      obtain ⟨-, rfl⟩ := Outcome.ok.inj (hv.symm.trans hu)
      refine ih hlive hr.2.2.2 (fun hrest => hinside ?_) ht
      simp only [deliveryEnds, List.forall_mem_cons]
      exact ⟨hfirst.1, hfirst.2, hrest⟩
    · exact (hs.parse_stuck hp hd hr.head hfirst hu).parses hp hd.size_le hr.2.2.2 ht

/-! ## Where the header ends -/

theorem holdsFront_contiguousRing (hn : n ≤ w.length) :
    HoldsFront w 0 (contiguousRing (w.take n)) ∧ (contiguousRing (w.take n)).size = n ∧
      partEnd 0 (contiguousRing (w.take n)) = n := by
  have hlength : (w.take n).length = n := by rw [List.length_take, Nat.min_eq_left hn]
  refine ⟨⟨contiguousRing_sound _, Nat.zero_le _, ?_⟩, hlength, ?_⟩
  · rw [ringContent_contiguousRing, contiguousRing, hlength]
  · rw [partEnd, if_neg (by simp [contiguousRing])]
    exact hlength

/-- After the first bytes of `w`, the parser waits for the content exactly at the end of the header. -/
theorem Divides.waitsForContent_iff (hp : ContentFunction acceptingSocket initial step)
    (hd : Divides initial step w h header final) (hn : n < w.length) (hnh : n ≤ h) :
    waitsForContent acceptingSocket (w.take n) = true ↔ n = h := by
  obtain ⟨hfront, hsize, hend⟩ := holdsFront_contiguousRing hn.le
  have hlive : Live initial step w h header final 0 Progress.zero :=
    .inl (hd.zero_reading hp.toContentParser)
  obtain ⟨t, ht, hlive⟩ := hlive.parse hp hd hfront (.inl (hend.trans_le hnh))
    (.inl (hsize.trans_le hnh))
  rw [hsize] at hlive
  obtain hread | ⟨heq, -⟩ := hlive
  · rw [waitsForContent, ht, beq_iff_eq]
    constructor
    · intro hstate
      by_contra hne
      -- the parser does not wait where another byte of the header is counted
      have hremaining := hread.remaining
      rw [Progress.begin_of_ne (by rw [hstate]; decide)] at hremaining
      cases hrest : (w.take h).drop n with
      | nil =>
        have hlength := congrArg List.length hrest
        have := hd.header_le
        rw [List.length_drop, List.length_take, List.length_nil] at hlength
        omega
      | cons c cs =>
        rw [hrest] at hremaining
        exact hp.not_content_of_consumes hremaining hstate
    · rintro rfl
      have hremaining := hread.remaining
      rw [List.drop_eq_nil_of_le (by rw [List.length_take]; omega)] at hremaining
      cases hremaining
      have hstate := (hd.waits hn).1
      rw [Progress.begin] at hstate
      split_ifs at hstate
      · exact absurd hstate hp.initial_ne_content
      · exact hstate
  · omega

theorem Divides.headerSize_eq (hp : ContentFunction acceptingSocket initial step)
    (hd : Divides initial step w h header final) : headerSize acceptingSocket w = h := by
  have hle := hd.header_le
  rw [headerSize]
  by_cases hlt : h < w.length
  · have hfind : (List.range w.length).find? (fun n => waitsForContent acceptingSocket (w.take n))
        = some h := by
      rw [List.find?_range_eq_some]
      refine ⟨(hd.waitsForContent_iff hp hlt (le_refl h)).mpr rfl, List.mem_range.mpr hlt,
        fun n hn => ?_⟩
      have hnot := hd.waitsForContent_iff hp (hn.trans hlt) hn.le
      simpa [hn.ne] using hnot
    rw [hfind, Option.getD_some]
  · have hfind : (List.range w.length).find? (fun n => waitsForContent acceptingSocket (w.take n))
        = none := by
      rw [List.find?_range_eq_none]
      intro n hn
      have hnot := hd.waitsForContent_iff hp hn (by omega)
      simpa [show n ≠ h by omega] using hnot
    rw [hfind, Option.getD_none]
    omega

end

/-! ## Exactly when chunks do not matter -/

/-- A request with a content, or without one, that is parsed in one part is parsed the same in chunks
exactly when no part ends inside its content. -/
theorem parserParses_iff {acceptingSocket : ℕ} (hprotocol : HasContent acceptingSocket)
    {w : List UInt8} (hsize : w.length < 2 ^ 64) {request : Request}
    (hwhole : ParsesWhole acceptingSocket w request) {rings : List Ring} (hr : Delivers w 0 rings) :
    (∃ parser, parserParses acceptingSocket rings Progress.zero = .ok () ⟨parser, request⟩ ∧
        parser.state = .end ∧ request.streamSize = w.length) ↔
      ∀ n ∈ deliveryEnds 0 rings, n ≤ headerSize acceptingSocket w ∨ w.length ≤ n := by
  obtain ⟨initial, step, hp⟩ := hprotocol.contentFunction
  obtain ⟨parser, hparse, hend, hstream⟩ := hwhole
  obtain ⟨h, header, hd⟩ := hp.divides hsize hparse hend hstream
  have hlive : Live initial step w h header ⟨parser, request⟩ 0 Progress.zero :=
    .inl (hd.zero_reading hp.toContentParser)
  rw [hd.headerSize_eq hp]
  constructor
  · rintro ⟨parser', hparses, hend', -⟩
    by_contra hinside
    have hstate := hlive.parses_stuck hp hd hr hinside hparses
    exact absurd (hstate.symm.trans hend') (by decide)
  · intro houtside
    exact ⟨parser, hlive.parses hp hd hr houtside, hend, hstream⟩

/-- A Spartan request with a content of two bytes. -/
def shortRequest : List UInt8 := ascii "a / 2\r\nbc"

/-- What the parser makes of it in one part. -/
def shortProgress : Progress where
  parser := { Parser.zero with
    state := .end, remainingContent := 2, currentValue := ⟨4, 1⟩ }
  request := { Request.zero with streamSize := 9, method := ⟨0, 1⟩, resource := ⟨2, 1⟩ }

/-- A block of sixteen bytes that holds the first `n` bytes of the request. -/
def shortRing (n : ℕ) : Ring :=
  ⟨shortRequest.take n ++ List.replicate (16 - n) 0, n, 16, 0⟩

/-- Cut in its header, the request is parsed the same. -/
theorem parserParses_iff_short :
    (∃ parser, parserParses 10 [shortRing 3, shortRing 9] Progress.zero
        = .ok () ⟨parser, shortProgress.request⟩ ∧ parser.state = .end ∧
        shortProgress.request.streamSize = shortRequest.length) ↔
      ∀ n ∈ deliveryEnds 0 [shortRing 3, shortRing 9],
        n ≤ headerSize 10 shortRequest ∨ shortRequest.length ≤ n :=
  parserParses_iff (.inr (.inr rfl)) (by decide)
    ⟨shortProgress.parser, by decide +kernel, rfl, rfl⟩
    ⟨⟨rfl, by decide, by decide⟩, by decide, by decide,
      ⟨rfl, by decide, by decide⟩, by decide, by decide, rfl⟩

/-- Cut inside its content, the request never ends, although all of its bytes have arrived. -/
theorem parserParses_cut_content :
    ¬ ∀ (acceptingSocket : ℕ) (w : List UInt8) (request : Request) (rings : List Ring),
      HasContent acceptingSocket → w.length < 2 ^ 64 → ParsesWhole acceptingSocket w request →
      Delivers w 0 rings →
      ∃ parser, parserParses acceptingSocket rings Progress.zero = .ok () ⟨parser, request⟩ ∧
        parser.state = .end ∧ request.streamSize = w.length := by
  intro hclaim
  obtain ⟨parser, hparses, hend, -⟩ := hclaim 10 shortRequest shortProgress.request
    [shortRing 8, shortRing 9] (.inr (.inr rfl)) (by decide)
    ⟨shortProgress.parser, by decide +kernel, rfl, rfl⟩
    ⟨⟨rfl, by decide, by decide⟩, by decide, by decide,
      ⟨rfl, by decide, by decide⟩, by decide, by decide, rfl⟩
  have hwaits : parserParses 10 [shortRing 8, shortRing 9] Progress.zero
      = .ok () { shortProgress with parser.state := .waitContent } := by
    decide +kernel
  obtain ⟨-, hprogress⟩ := Outcome.ok.inj (hwaits.symm.trans hparses)
  have hstate := congrArg (·.parser.state) hprogress
  exact absurd (hstate.trans hend) (by decide)

end Twinkleshine
