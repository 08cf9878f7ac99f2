import Twinkleshine.Parser.Accept
import Twinkleshine.Parser.Chunking
import Mathlib.Data.List.Forall2

/-!
# Pipelined requests

One read may carry the end of a request and the start of the next. The loop of the server parses what
the ring holds; when a request is complete it pops its bytes and starts over with a zeroed parser.
Reference: `get_makes_sense_to_parse` in `source/server/high_level.c`, `server_process_traffic` in
`source/server/process.c`.
-/

namespace Twinkleshine

open Library

/-! ## The loop -/

/-- A request that was completed, and the bytes that were popped for it. -/
abbrev Completed := Progress × List UInt8

/-- Parse while there are bytes that are not parsed; on `RPS_END`, pop the request and zero request
and parser. -/
def parseRequests (acceptingSocket : ℕ) :
    ℕ → Ring → Progress → Outcome ExError (Ring × Progress) (List Completed)
  | 0, _, _ => .hang
  | fuel + 1, ring, s =>
    if ring.size > s.request.streamSize then
      ((parserParse acceptingSocket ring s).mapState (ring, ·)).andThen fun _ (ring, s) =>
        if s.parser.state = .end then
          (((ringPopRead ring s.request.streamSize).mapError (extend .closeLogDie)).mapState
            (·, Progress.zero)).andThen fun bytes (ring, zero) =>
            (parseRequests acceptingSocket fuel ring zero).andThen fun completed state =>
              .ok ((s, bytes) :: completed) state
        else parseRequests acceptingSocket fuel ring s
    else .ok [] (ring, s)

/-- Where a ring puts its content: any valid ring can come of the arrival of bytes. -/
abbrev Layout := List UInt8 → Ring

/-- Chunks arrive, each into a ring of any layout, and the requests they complete are served. -/
def serveChunks (acceptingSocket : ℕ) :
    List (List UInt8 × Layout) → Ring → Progress → Outcome ExError (Ring × Progress) (List Completed)
  | [], ring, s => .ok [] (ring, s)
  | (chunk, layout) :: chunks, ring, s =>
    let ring := layout (ringContent ring ++ chunk)
    (parseRequests acceptingSocket (ring.size + 2) ring s).andThen fun completed (ring, s) =>
      (serveChunks acceptingSocket chunks ring s).andThen fun rest state =>
        .ok (completed ++ rest) state

/-- A layout for contents of fewer than `MAX_REQUEST_SIZE` bytes. -/
def Layout.Holds (layout : Layout) : Prop :=
  ∀ content : List UInt8, content.length < maxRequestSize →
    (layout content).Valid ∧ ringContent (layout content) = content

/-- The ring never holds `MAX_REQUEST_SIZE` bytes or more. -/
def BufferedBelow (acceptingSocket : ℕ) : List (List UInt8 × Layout) → Ring → Progress → Prop
  | [], _, _ => True
  | (chunk, layout) :: chunks, ring, s =>
    (ringContent ring ++ chunk).length < maxRequestSize ∧
      ∀ completed ring' s', parseRequests acceptingSocket
          ((layout (ringContent ring ++ chunk)).size + 2) (layout (ringContent ring ++ chunk)) s
            = .ok completed (ring', s') →
        BufferedBelow acceptingSocket chunks ring' s'

/-! ## Pipelined requests -/

/-- A request without a content that keeps the connection alive. -/
structure HttpRequest.Pipelined (e : LineEnd) (r : HttpRequest) : Prop extends r.WellFormed e where
  noContent : ∀ header ∈ r.headers, ¬ header.Is "content-length"
  noBody : r.body = []
  keepAlive : ∃ header ∈ r.headers, header.Is "connection" ∧ hasKeepAlive header.value = true

/-- The requests on the wire, each with its own line ends. -/
def renderRequests (requests : List (LineEnd × HttpRequest)) : List UInt8 :=
  requests.flatMap fun (e, r) => r.render e

/-- A completed request is the request that was sent. -/
def CompletedAs (request : LineEnd × HttpRequest) (completed : Completed) : Prop :=
  completed.2 = request.2.render request.1 ∧ ParsedAs request.1 request.2 completed.1

/-- The sockets of the HTTP parser. -/
def IsHttp (acceptingSocket : ℕ) : Prop :=
  acceptingSocketProtocol acceptingSocket = .http ∨ acceptingSocketProtocol acceptingSocket = .https

theorem IsHttp.contentFunction {acceptingSocket : ℕ} (h : IsHttp acceptingSocket) :
    ContentFunction acceptingSocket .waitMethodBegin parserParseHttpStep :=
  ⟨parserParseHttpStep_content, fun _ => by
    obtain h | h := h <;> simp only [parserFunction, h] <;> rfl⟩

section

variable {e : LineEnd} {r : HttpRequest} {acceptingSocket : ℕ} {lookup : Lookup}
  {s final : Progress} {m n : ℕ}

/-- A request that is waited for: what its bytes will make of the parser. -/
structure Expected (e : LineEnd) (r : HttpRequest) (final : Progress) : Prop where
  divides : Divides .waitMethodBegin parserParseHttpStep (r.render e) (r.render e).length final final
  parsedAs : ParsedAs e r final
  keepAlive : final.request.keepAlive = true

/-- A well-formed request divides where its head ends. -/
theorem HttpRequest.WellFormed.divides (h : r.WellFormed e) : ∃ header final,
    Divides .waitMethodBegin parserParseHttpStep (r.render e) (r.head e).length header final ∧
      HeadRead e r header := by
  have hmax : maxRequestSize = 1048576 := rfl
  have hsize := h.size
  have hbody := h.body
  have hlength : (r.render e).length = (r.head e).length + r.body.length := List.length_append
  have hreads := contiguousRing_reads (show (r.render e).length < 2 ^ 64 by omega)
  obtain ⟨header, hheader, hread⟩ := h.head_read hreads.of_append
  have hstate := hread.state
  have hremaining := hread.remaining
  have hcounts : Consumes (parserParseHttpStep (ringLookup (contiguousRing (r.render e))))
      Progress.bump ((r.render e).take (r.head e).length) (Progress.zero.begin .waitMethodBegin) header := by
    conv => arg 3; rw [HttpRequest.render, List.take_left]
    exact hheader
  refine ⟨header, _, ⟨by omega, hsize.le, hcounts, fun hlt => ?_, rfl, ?_, ?_⟩, hread⟩
  · rw [if_pos (by omega)] at hstate
    exact ⟨hstate, by omega⟩
  · split_ifs with hlt
    · rw [parseContent, if_pos (by omega)]
    · rw [hstate, if_neg (by omega)]
  · split_ifs with hlt
    · rw [parseContent, if_pos (by omega)]
      show header.request.streamSize + header.parser.remainingContent = _
      rw [hread.streamSize]
      omega
    · rw [hread.streamSize]
      omega

/-- The header of a request is its head: the request line, the header fields and the empty line. -/
theorem HttpRequest.WellFormed.headerSize_eq (hhttp : IsHttp acceptingSocket) (h : r.WellFormed e) :
    headerSize acceptingSocket (r.render e) = (r.head e).length := by
  obtain ⟨header, final, hdivides, -⟩ := h.divides
  exact hdivides.headerSize_eq hhttp.contentFunction

theorem HttpRequest.Pipelined.expected (h : r.Pipelined e) : ∃ final, Expected e r final := by
  have hrender : r.render e = r.head e := by rw [HttpRequest.render, h.noBody, List.append_nil]
  obtain ⟨header, final, hdivides, hread⟩ := h.divides
  rw [← hrender] at hdivides
  obtain rfl : final = header := by rw [hdivides.final_eq, if_neg (lt_irrefl _)]
  have hkeeps := hread.keepAlive_iff
  refine ⟨final, hdivides, ⟨hdivides.ends, hdivides.streamSize_eq, ?_, ?_, ?_, hkeeps, ?_⟩,
    hkeeps.mpr h.keepAlive⟩ <;> rw [hrender]
  · exact hread.method
  · exact hread.resource
  · exact hread.protocol
  · exact hread.user

/-- Once a request is complete, the following bytes are left alone. -/
theorem Expected.scan_eq (h : Expected e r final) (cs : List UInt8) :
    scan (parserParseHttpStep lookup) Progress.bump cs final = .ok () final := by
  cases cs with
  | nil => rfl
  | cons c cs =>
    rw [scan, parserParseHttpStep]
    simp only [h.parsedAs.ends, h.keepAlive, if_true, Outcome.andThen_ok]

/-- The progress in a request that is waited for, after its first `n` bytes. -/
abbrev ReadingRequest (e : LineEnd) (r : HttpRequest) (final : Progress) (n : ℕ) (s : Progress) :
    Prop :=
  Reading .waitMethodBegin parserParseHttpStep (r.render e) (r.render e).length final n s

/-- No request that is being read is complete. -/
theorem ReadingRequest.not_ended (hs : ReadingRequest e r final n s) : s.parser.state ≠ .end := by
  intro hend
  have hremaining := hs.remaining
  have hlt := hs.incomplete
  rw [Progress.begin_of_ne (by rw [hend]; decide), List.take_length] at hremaining
  cases hrest : (r.render e).drop n with
  | nil =>
    have hlength := congrArg List.length hrest
    rw [List.length_drop, List.length_nil] at hlength
    omega
  | cons c cs =>
    rw [hrest] at hremaining
    cases hremaining with
    | cons head tail =>
      have hstep := head 1
      simp only [parserParseHttpStep, hend] at hstep
      split at hstep <;> cases hstep

/-- A part that holds the end of a request completes it, and leaves what follows. -/
theorem ReadingRequest.part_past (h : Expected e r final) (hs : ReadingRequest e r final m s)
    {c : List UInt8} (hc : r.render e <+: c) (hreads : Reads lookup c)
    (hn : (r.render e).length ≤ n) :
    parsePart .waitMethodBegin (parserParseHttpStep lookup) ((c.take n).drop m) s
      = .ok () final := by
  have hlt := hs.incomplete
  have hle := hc.length_le
  have hfront : c.take (r.render e).length = r.render e := by
    obtain ⟨rest, rfl⟩ := hc
    exact List.take_left
  have hreads' : Reads lookup ((r.render e).take (r.render e).length) := by
    rw [List.take_length]
    exact hreads.of_front hc
  obtain ⟨t, hpart, hrest, -⟩ :=
    hs.counts parserParseHttpStep_content h.divides hreads' hlt.le (le_refl _)
  rw [List.take_length, List.drop_length] at hrest
  cases hrest
  rw [List.take_length] at hpart
  rw [parsePart, drop_take_append (by omega) hlt.le hn, hfront, hpart.scan_append]
  exact h.scan_eq _

/-- A call on a ring that holds the end of a request completes it. -/
theorem ReadingRequest.parse_past (hp : IsHttp acceptingSocket) (h : Expected e r final)
    (hs : ReadingRequest e r final m s) {ring : Ring} (hring : ring.Sound)
    (hsize : ring.size < maxRequestSize) (hm : m ≤ ring.size)
    (hc : r.render e <+: ringContent ring) :
    parserParse acceptingSocket ring s = .ok () final := by
  have hmax : maxRequestSize = 1048576 := rfl
  have hstream := hs.streamSize_eq
  have hlt : ring.size < 2 ^ 64 := by omega
  have hreads := ringLookup_reads hring hlt
  have hle := hc.length_le
  rw [hring.length_content] at hle
  obtain ⟨hmb, hb, -⟩ := ringLookup_rest hring hlt hm
  rw [hp.contentFunction.parse_eq hring hsize.le (hstream ▸ hm), hstream]
  have hrest : (ringContent ring).drop (partEnd m ring)
      = ((ringContent ring).take ring.size).drop (partEnd m ring) := by
    rw [List.take_of_length_le hring.length_content.le]
  by_cases hpast : (r.render e).length ≤ partEnd m ring
  · rw [hs.part_past h hc hreads hpast, Outcome.andThen_ok, parsePart,
      Progress.begin_of_ne (by rw [h.parsedAs.ends]; decide), h.scan_eq, Outcome.andThen_ok,
      if_neg (by omega)]
  · have hfront : (ringContent ring).take (partEnd m ring)
        = (r.render e).take (partEnd m ring) := by
      obtain ⟨rest, hrest⟩ := hc
      rw [← hrest, List.take_append_of_le_length (by omega)]
    have hreads' : Reads (ringLookup ring) ((r.render e).take (partEnd m ring)) := by
      rw [← hfront]
      exact hreads.of_front (List.take_prefix _ _)
    obtain ⟨t, ht, hlive⟩ := hs.part_header parserParseHttpStep_content h.divides hreads' hmb
      (by omega)
    obtain hread | ⟨heq, -⟩ := hlive
    · rw [hfront, ht, Outcome.andThen_ok, hrest, ReadingRequest.part_past h hread hc hreads hle,
        Outcome.andThen_ok, if_neg (by omega)]
    · omega

/-- A call on a ring that holds the start of a request reads it. -/
theorem ReadingRequest.parse_short (hp : IsHttp acceptingSocket) (h : Expected e r final)
    (hs : ReadingRequest e r final m s) {ring : Ring} (hring : ring.Sound) (hm : m ≤ ring.size)
    (hc : ringContent ring <+: r.render e) (hshort : ring.size < (r.render e).length) :
    ∃ t, parserParse acceptingSocket ring s = .ok () t ∧ ReadingRequest e r final ring.size t := by
  have hfront : HoldsFront (r.render e) m ring := by
    refine ⟨hring, hm, ?_⟩
    rw [← hring.length_content]
    exact List.prefix_iff_eq_take.mp hc
  obtain ⟨hle, hend, -⟩ := hfront.parts h.divides.size_lt
  obtain ⟨t, ht, hlive⟩ := Live.parse hp.contentFunction h.divides (.inl hs) hfront
    (.inl (by omega)) (.inl hshort.le)
  obtain hread | ⟨heq, -⟩ := hlive
  · exact ⟨t, ht, hread⟩
  · omega

/-! ## The loop completes what the ring holds -/

/-- Between two calls: the progress in the first of the requests that are to come, or none. -/
def Awaits (requests : List (LineEnd × HttpRequest)) (n : ℕ) (s : Progress) : Prop :=
  match requests with
  | [] => n = 0 ∧ s.request.streamSize = 0
  | (e, r) :: _ => ∃ final, Expected e r final ∧ ReadingRequest e r final n s

theorem Awaits.streamSize_eq {requests : List (LineEnd × HttpRequest)} (h : Awaits requests n s) :
    s.request.streamSize = n := by
  cases requests with
  | nil => exact h.2.trans h.1.symm
  | cons request requests =>
    obtain ⟨final, -, hread⟩ := h
    exact hread.streamSize_eq

/-- A zeroed parser waits for the next request. -/
theorem awaits_zero {requests : List (LineEnd × HttpRequest)}
    (h : ∀ request ∈ requests, request.2.Pipelined request.1) : Awaits requests 0 Progress.zero := by
  cases requests with
  | nil => exact ⟨rfl, rfl⟩
  | cons request requests =>
    obtain ⟨final, hfinal⟩ := (h request List.mem_cons_self).expected
    exact ⟨final, hfinal, hfinal.divides.zero_reading parserParseHttpStep_content⟩

/-- Nothing to do is left: all of the ring is parsed, and it holds no complete request. -/
structure Settled (requests : List (LineEnd × HttpRequest)) (future : List UInt8) (ring : Ring)
    (s : Progress) : Prop where
  valid : ring.Valid
  content : ringContent ring ++ future = renderRequests requests
  awaits : Awaits requests ring.size s

/-- The loop completes the requests the ring holds, in order, and settles on the next. -/
theorem parseRequests_settles (hp : IsHttp acceptingSocket) {requests : List (LineEnd × HttpRequest)}
    (h : ∀ request ∈ requests, request.2.Pipelined request.1) {future : List UInt8} {fuel : ℕ}
    {ring : Ring} (hfuel : ring.size + 2 ≤ fuel) (hvalid : ring.Valid)
    (hsize : ring.size < maxRequestSize)
    (hcontent : ringContent ring ++ future = renderRequests requests) (hn : n ≤ ring.size)
    (hs : Awaits requests n s) :
    ∃ served rest completed ring' s', requests = served ++ rest ∧
      parseRequests acceptingSocket fuel ring s = .ok completed (ring', s') ∧
      List.Forall₂ CompletedAs served completed ∧ Settled rest future ring' s' := by
  have hmax : maxRequestSize = 1048576 := rfl
  -- by induction on the fuel: every request that is taken out makes the ring smaller
  induction fuel generalizing requests ring n s with
  | zero => omega
  | succ fuel ih =>
    have hstream := hs.streamSize_eq
    rw [parseRequests]
    by_cases hmore : ring.size > s.request.streamSize
    · rw [if_pos hmore]
      cases requests with
      | nil =>
        -- nothing is to come, so the ring is empty
        have hlength := congrArg List.length hcontent
        rw [List.length_append, hvalid.length_content] at hlength
        simp only [renderRequests, List.flatMap_nil, List.length_nil] at hlength
        omega
      | cons request requests =>
        obtain ⟨e, r⟩ := request
        obtain ⟨final, hfinal, hread⟩ := hs
        have hwhole : ringContent ring ++ future = r.render e ++ renderRequests requests := hcontent
        by_cases hshort : ring.size < (r.render e).length
        · -- the request has not come whole: all that is there is parsed, and the parser waits
          have hfront : ringContent ring <+: r.render e := by
            refine List.prefix_of_prefix_length_le (List.prefix_append _ future) ?_
              (by rw [hvalid.length_content]; exact hshort.le)
            rw [hwhole]
            exact List.prefix_append _ _
          obtain ⟨t, ht, hread⟩ := hread.parse_short hp hfinal hvalid.toSound hn hfront hshort
          obtain ⟨fuel, rfl⟩ : ∃ k, fuel = k + 1 := ⟨fuel - 1, by omega⟩
          refine ⟨[], (e, r) :: requests, [], ring, t, rfl, ?_, .nil, hvalid, hcontent,
            ⟨final, hfinal, hread⟩⟩
          rw [ht, Outcome.mapState_ok, Outcome.andThen_ok]
          simp only [if_neg hread.not_ended, parseRequests, hread.streamSize_eq, gt_iff_lt,
            lt_irrefl, if_false]
        · -- the request is there: it is taken out, and the parser begins anew
          have hfront : r.render e <+: ringContent ring := by
            refine List.prefix_of_prefix_length_le (List.prefix_append _ (renderRequests requests)) ?_
              (by rw [hvalid.length_content]; omega)
            rw [← hwhole]
            exact List.prefix_append _ _
          have ht := hread.parse_past hp hfinal hvalid.toSound hsize hn hfront
          obtain ⟨bytes, ring', hpop, rfl, hvalid', hcontent', hsize', -, -⟩ :=
            ((ringPopRead_spec hvalid (show (r.render e).length < 2 ^ 62 by omega)).mono
              (fun _ _ hr => hr) fun _ _ hr => absurd hr.2 (by omega)).exists_ok
          obtain ⟨rest, hrest⟩ := hfront
          have hpositive := hread.incomplete
          rw [← hrest, List.drop_left] at hcontent'
          rw [← hrest, List.append_assoc, List.append_cancel_left_eq] at hwhole
          obtain ⟨served, rest', completed, ring'', s'', rfl, hloop, hserved, hsettled⟩ :=
            ih (fun request hmem => h request (List.mem_cons_of_mem _ hmem)) (by omega) hvalid'
              (by omega) (by rw [hcontent', hwhole]) (Nat.zero_le _)
              (awaits_zero fun request hmem => h request (List.mem_cons_of_mem _ hmem))
          refine ⟨(e, r) :: served, rest', (final, r.render e) :: completed, ring'', s'', rfl, ?_,
            .cons ⟨rfl, hfinal.parsedAs⟩ hserved, hsettled⟩
          rw [← hrest, List.take_left] at hpop
          rw [ht, Outcome.mapState_ok, Outcome.andThen_ok]
          simp only [hfinal.parsedAs.ends, if_true, hfinal.parsedAs.streamSize, hpop,
            Outcome.mapError_ok, Outcome.mapState_ok, Outcome.andThen_ok, hloop]
    · -- everything that has come is parsed already
      rw [if_neg hmore]
      refine ⟨[], requests, [], ring, s, rfl, rfl, .nil, hvalid, hcontent, ?_⟩
      rwa [show ring.size = n by omega]

/-- Chunk after chunk, the loop completes all requests and leaves an empty ring. -/
theorem Settled.serveChunks (hp : IsHttp acceptingSocket)
    {requests : List (LineEnd × HttpRequest)}
    (h : ∀ request ∈ requests, request.2.Pipelined request.1)
    {chunks : List (List UInt8 × Layout)} (hlayout : ∀ chunk ∈ chunks, chunk.2.Holds)
    {ring : Ring} (hs : Settled requests (chunks.flatMap Prod.fst) ring s)
    (hbelow : BufferedBelow acceptingSocket chunks ring s) :
    ∃ completed ring' s', Twinkleshine.serveChunks acceptingSocket chunks ring s
        = .ok completed (ring', s') ∧
      List.Forall₂ CompletedAs requests completed ∧ ring'.size = 0 := by
  induction chunks generalizing requests ring s with
  | nil =>
    cases requests with
    | nil => exact ⟨[], ring, s, rfl, .nil, hs.awaits.1⟩
    | cons request requests =>
      -- the ring would hold a complete request
      obtain ⟨final, -, hread⟩ := hs.awaits
      have hlength := congrArg List.length hs.content
      have hlt := hread.incomplete
      simp only [renderRequests, List.flatMap_nil, List.append_nil, List.flatMap_cons,
        List.length_append, hs.valid.length_content] at hlength
      omega
  | cons chunk chunks ih =>
    obtain ⟨bytes, layout⟩ := chunk
    rw [List.forall_mem_cons] at hlayout
    obtain ⟨hbuffered, hrest⟩ := hbelow
    have hholds : layout.Holds := hlayout.1
    obtain ⟨hvalid, hcontent⟩ := hholds _ hbuffered
    have hsize : (layout (ringContent ring ++ bytes)).size = ring.size + bytes.length := by
      rw [← hvalid.length_content, hcontent, List.length_append, hs.valid.length_content]
    rw [← hcontent, hvalid.length_content] at hbuffered
    obtain ⟨served, rest, completed, ring', s', rfl, hloop, hserved, hsettled⟩ :=
      parseRequests_settles (n := ring.size) hp h (le_refl _) hvalid hbuffered
        (by rw [hcontent, List.append_assoc]; exact hs.content) (by omega) hs.awaits
    obtain ⟨completed', ring'', s'', hserve, hserved', hempty⟩ :=
      ih (fun request hmem => h request (List.mem_append_right _ hmem)) hlayout.2 hsettled
        (hrest _ _ _ hloop)
    refine ⟨completed ++ completed', ring'', s'', ?_, List.rel_append hserved hserved', hempty⟩
    simp only [Twinkleshine.serveChunks, hloop, Outcome.andThen_ok, hserve]

end

/-- Pipelined requests are completed one by one, in order and each as it was sent, however their bytes
are cut into chunks and wherever the ring wraps. -/
theorem serveChunks_completes {acceptingSocket : ℕ} (hp : IsHttp acceptingSocket)
    {requests : List (LineEnd × HttpRequest)}
    (h : ∀ request ∈ requests, request.2.Pipelined request.1)
    {chunks : List (List UInt8 × Layout)} (hlayout : ∀ chunk ∈ chunks, chunk.2.Holds)
    (hchunks : chunks.flatMap Prod.fst = renderRequests requests)
    (hbelow : BufferedBelow acceptingSocket chunks Ring.zero Progress.zero) :
    ∃ completed ring s, serveChunks acceptingSocket chunks Ring.zero Progress.zero
        = .ok completed (ring, s) ∧
      List.Forall₂ CompletedAs requests completed ∧ ring.size = 0 :=
  Settled.serveChunks hp h hlayout ⟨Ring.zero_valid, hchunks, awaits_zero h⟩ hbelow

/-- A request that keeps the connection alive. -/
def aliveRequest : HttpRequest where
  method := ascii "GET"
  resource := ascii "/"
  protocol := ascii "HTTP/1.0"
  headers := [⟨ascii "Connection", ascii "keep-alive"⟩]
  body := []

/-- The content at the start of a block of `MAX_REQUEST_SIZE` bytes. -/
def flatLayout : Layout := fun content =>
  ⟨content ++ List.replicate (2 ^ 20 - content.length) 0, content.length, 2 ^ 20, 0⟩

theorem aliveRequest_pipelined {e : LineEnd}
    (hsize : (aliveRequest.render e).length < maxRequestSize) : aliveRequest.Pipelined e := by
  have hnone : ∀ header ∈ aliveRequest.headers, ¬ header.Is "content-length" := by decide
  refine ⟨⟨by decide, by decide, by decide, ?_, ⟨fun n hn => ?_, trivial⟩, by decide, hsize⟩, hnone,
    rfl, by decide⟩
  · intro header hmem
    obtain rfl := List.mem_singleton.mp hmem
    exact ⟨by decide, List.all_eq_true.mp rfl, fun h => absurd h (by decide)⟩
  · exact absurd ((show Header.contentLength _ = none by decide).symm.trans hn) (by simp)

theorem flatLayout_holds : flatLayout.Holds := by
  intro content hsize
  have hmax : maxRequestSize = 1048576 := rfl
  refine ⟨⟨⟨?_, ?_, Nat.zero_le _⟩, .inr ⟨20, by omega, rfl⟩⟩, ?_⟩
  · simp only [flatLayout, List.length_append, List.length_replicate]
    omega
  · simp only [flatLayout]
    omega
  · show window (content ++ List.replicate (2 ^ 20 - content.length) 0) 0 content.length = content
    rw [window_of_fits (by rw [List.length_append]; omega), List.drop_zero, List.take_left]

/-- Two requests in one read, with different line ends. -/
theorem serveChunks_completes_two :
    ∃ completed ring s, serveChunks 0
        [(aliveRequest.render .crlf ++ aliveRequest.render .cr, flatLayout)] Ring.zero Progress.zero
        = .ok completed (ring, s) ∧
      List.Forall₂ CompletedAs [(.crlf, aliveRequest), (.cr, aliveRequest)] completed ∧
      ring.size = 0 := by
  refine serveChunks_completes (.inl rfl) ?_ ?_ rfl ⟨by decide, fun _ _ _ _ => trivial⟩
  · intro request hmem
    obtain rfl | hmem := List.mem_cons.mp hmem
    · exact aliveRequest_pipelined (by decide)
    · obtain rfl := List.mem_singleton.mp hmem
      exact aliveRequest_pipelined (by decide)
  · intro chunk hmem
    obtain rfl := List.mem_singleton.mp hmem
    exact flatLayout_holds

end Twinkleshine
