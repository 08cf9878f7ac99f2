import Twinkleshine.Parser.Safety
import Twinkleshine.Processor.ProcessTheorems
import Twinkleshine.Library.Transition

/-!
# The requests of one client

A session is what one client sends, from its acceptance on: bytes arrive in chunks of any size and
are parsed at any time, and a complete request is answered and popped. Reference: the parts of
`server_process_traffic` in `source/server/process.c` that concern the request.
-/

namespace Twinkleshine

open Library

/-- The request side of a client. -/
structure Session where
  requestStream : Ring
  progress : Progress
deriving DecidableEq, Repr

/-- `ZERO_INIT` -/
def Session.start : Session := ⟨Ring.zero, Progress.zero⟩

/-- What can happen to a session. -/
inductive SessionEvent where
  /-- Bytes arrive from the socket, or decrypted ones from the TLS library. -/
  | receive (bytes : List UInt8)
  /-- `parser_parse` is called. -/
  | parse
  /-- A complete request is popped, and request and parser are zeroed for a further one. -/
  | complete
deriving DecidableEq, Repr

/-- One event. The ring may have been moved and grown to receive bytes, so any valid ring with the
right content can come of it. A request after which the connection is not kept alive is the last. -/
inductive SessionStep (acceptingSocket : ℕ) : Session → SessionEvent → Session → Prop where
  | receive {s : Session} {bytes : List UInt8} {ring : Ring} (valid : ring.Valid)
      (content : ringContent ring = ringContent s.requestStream ++ bytes) :
      SessionStep acceptingSocket s (.receive bytes) { s with requestStream := ring }
  | parse {s : Session} {progress : Progress}
      (parsed : parserParse acceptingSocket s.requestStream s.progress = .ok () progress) :
      SessionStep acceptingSocket s .parse { s with progress := progress }
  | complete {s : Session} {ring : Ring} (ended : s.progress.parser.state = .end)
      (popped : ringPop s.requestStream s.progress.request.streamSize = .ok () ring) :
      SessionStep acceptingSocket s .complete ⟨ring, Progress.zero⟩

/-- What holds in every state of a session. -/
structure Session.Inv (acceptingSocket : ℕ) (s : Session) : Prop where
  valid : s.requestStream.Valid
  parse : ParseInv acceptingSocket s.requestStream.size s.progress

theorem Session.start_inv (acceptingSocket : ℕ) : Session.start.Inv acceptingSocket :=
  ⟨Ring.zero_valid, Progress.zero_parseInv _ _⟩

/-! ## Lookups in range -/

/-- The lookups of `ring_get`, with other answers out of range. -/
def confinedLookup (ring : Ring) (outside : Lookup) : Lookup := fun location =>
  if location.limit ≤ ring.size then ringLookup ring location else outside location

theorem confinedLookup_eq {ring : Ring} {outside : Lookup} {location : ValueLocation}
    (h : location.limit ≤ ring.size) : confinedLookup ring outside location = ringLookup ring location :=
  if_pos h

theorem confinedLookup_reads {ring : Ring} (h : ring.Valid) (outside : Lookup) :
    Reads (confinedLookup ring outside) (ringContent ring) := fun location hloc => by
  rw [confinedLookup_eq (hloc.trans_eq h.length_content)]
  exact ringLookup_reads h.toSound h.size_lt location hloc

section

variable {acceptingSocket : ℕ} {s : Session}

/-- `parser_parse` on the ring of a session. -/
theorem Session.Inv.parse_ensures (h : s.Inv acceptingSocket) :
    (parserParse acceptingSocket s.requestStream s.progress).Ensures
      (fun _ t => ParseInv acceptingSocket s.requestStream.size t)
      (fun e _ => IsParserError e ∨ e.eef = .sendShutdownLog .maxRequestHeaderSize) := by
  have hsize := h.valid.length_content
  have hensures := parserParseWith_ensures
    (ringLookup_reads h.valid.toSound h.valid.size_lt) (hsize ▸ h.valid.size_lt)
    (hsize.symm ▸ h.parse)
  rw [hsize] at hensures
  exact hensures.mono (fun _ _ ht => ht.1) fun _ _ he => he

theorem Session.Inv.parse_confined (h : s.Inv acceptingSocket) (outside : Lookup) :
    parserParseWith acceptingSocket (confinedLookup s.requestStream outside) s.requestStream.size
      s.progress = parserParse acceptingSocket s.requestStream s.progress := by
  have hsize := h.valid.length_content
  have hle := h.parse.streamSize_le
  rw [parserParse, ← hsize]
  refine parserParseWith_congr (confinedLookup_reads h.valid outside)
    (ringLookup_reads h.valid.toSound h.valid.size_lt) (hsize ▸ h.valid.size_lt)
    (hsize.symm ▸ h.parse) ?_
  rw [hsize]
  refine confinedLookup_eq ?_
  rw [notParsedLocation_limit h.valid.size_lt hle h.parse.streamSize_le_max]
  simp only [ValueLocation.limit]
  omega

/-- Every event keeps the invariant. -/
theorem SessionStep.inv {t : Session} {event : SessionEvent} (hs : s.Inv acceptingSocket)
    (h : SessionStep acceptingSocket s event t) : t.Inv acceptingSocket := by
  cases h with
  | receive valid content =>
    refine ⟨valid, hs.parse.mono ?_⟩
    rw [← valid.length_content, content, List.length_append, hs.valid.length_content]
    omega
  | parse parsed => exact ⟨hs.valid, hs.parse_ensures.of_eq_ok parsed⟩
  | complete ended popped =>
    obtain ⟨valid, -⟩ := (ringPop_spec hs.valid _).of_eq_ok popped
    exact ⟨valid, Progress.zero_parseInv _ _⟩

/-- When the state is `RPS_END`, the words of the request lie in its first `stream_size` bytes. -/
structure Request.Inside (request : Request) : Prop where
  method : request.method.limit ≤ request.streamSize
  resource : request.resource.limit ≤ request.streamSize
  protocol : request.protocol.limit ≤ request.streamSize

theorem ParseInv.inside {size : ℕ} {progress : Progress}
    (h : ParseInv acceptingSocket size progress) (hend : progress.parser.state = .end) :
    progress.request.Inside := by
  refine ⟨?_, h.within.resource, h.within.protocol⟩
  simpa only [hend, reduceCtorEq, if_false, Nat.add_zero] using h.within.method

/-- The words of a complete request are found in any stream that holds its bytes. -/
theorem Request.Inside.found {request : Request} (h : request.Inside) {lookup : Lookup}
    {w : List UInt8} (hreads : Reads lookup w) (hsize : request.streamSize ≤ w.length)
    (hmax : request.streamSize ≤ maxRequestSize) :
    ∃ method resource protocol, RequestFound lookup request method resource protocol ∧
      method.bytes = segment w request.method false ∧
      resource.bytes = segment w request.resource false ∧
      protocol.bytes = segment w request.protocol false := by
  have hmaximum : maxRequestSize = 1048576 := rfl
  obtain ⟨method, hmethod, hmbytes⟩ := hreads _ (h.method.trans hsize)
  obtain ⟨resource, hresource, hrbytes⟩ := hreads _ (h.resource.trans hsize)
  obtain ⟨protocol, hprotocol, hpbytes⟩ := hreads _ (h.protocol.trans hsize)
  refine ⟨method, resource, protocol, ⟨hmethod, hresource, hprotocol, ?_⟩, hmbytes, hrbytes,
    hpbytes⟩
  rw [hmbytes, hrbytes, hpbytes, length_segment (h.method.trans hsize),
    length_segment (h.resource.trans hsize), length_segment (h.protocol.trans hsize)]
  obtain ⟨hm, hr, hp⟩ := h
  simp only [ValueLocation.limit] at hm hr hp
  omega

/-- The errors of a request do not end the server. -/
theorem not_die_of_parserError {e : ExError}
    (h : IsParserError e ∨ e.eef = .sendShutdownLog .maxRequestHeaderSize) :
    e.has partialEefDie = false := by
  rw [← Bool.not_eq_true, e.has_die_iff]
  obtain (h | h) | h := h <;> simp [h]

theorem not_die_of_processorError {e : ExError} (h : IsProcessorError e) :
    e.has partialEefDie = false := by
  rw [← Bool.not_eq_true, e.has_die_iff]
  obtain h | h | h := h <;> simp [h]

end

/-! ## Every session is safe -/

/-- No lookup of the client's data can fail: the parsers and the processors look up locations in
range only, whatever `ring_get` would answer elsewhere, and what they do ends without an error that
ends the server. -/
structure Session.Safe (acceptingSocket : ℕ) (s : Session) : Prop where
  streamSize_le : s.progress.request.streamSize ≤ s.requestStream.size
  parse_inRange : ∀ outside : Lookup,
    parserParseWith acceptingSocket (confinedLookup s.requestStream outside) s.requestStream.size
      s.progress = parserParse acceptingSocket s.requestStream s.progress
  parse_ends : (parserParse acceptingSocket s.requestStream s.progress).Ensures
    (fun _ t => t.request.streamSize ≤ s.requestStream.size ∧
      (t.parser.state = .end → t.request.Inside))
    (fun e _ => e.has partialEefDie = false)
  inside : s.progress.parser.state = .end → s.progress.request.Inside
  process_inRange : s.progress.parser.state = .end →
    ∀ (env : ProcessorEnvironment) (processor : ProcessorState) (outside : Lookup),
      processorProcess acceptingSocket s.progress.request
          (confinedLookup s.requestStream outside) env processor
        = processorProcess acceptingSocket s.progress.request (ringLookup s.requestStream) env
          processor
  process_ends : s.progress.parser.state = .end →
    ∀ (env : ProcessorEnvironment) (processor : ProcessorState), processor.Ready →
      (processorProcess acceptingSocket s.progress.request (ringLookup s.requestStream) env
        processor).Ensures (fun _ _ => True) (fun e _ => e.has partialEefDie = false)
  pop_ok : ∃ ring, ringPop s.requestStream s.progress.request.streamSize = .ok () ring

theorem Session.Inv.safe {acceptingSocket : ℕ} {s : Session} (h : s.Inv acceptingSocket) :
    s.Safe acceptingSocket where
  streamSize_le := h.parse.streamSize_le
  parse_inRange := h.parse_confined
  parse_ends := h.parse_ensures.mono (fun _ _ ht => ⟨ht.streamSize_le, ht.inside⟩)
    fun _ _ => not_die_of_parserError
  inside := h.parse.inside
  process_inRange hend env processor outside := by
    have hinside := h.parse.inside hend
    have hle := h.parse.streamSize_le
    exact processorProcess_congr (confinedLookup_eq (hinside.method.trans hle))
      (confinedLookup_eq (hinside.resource.trans hle))
      (confinedLookup_eq (hinside.protocol.trans hle))
  process_ends hend env processor hready := by
    obtain ⟨method, resource, protocol, hfound, -⟩ := (h.parse.inside hend).found
      (ringLookup_reads h.valid.toSound h.valid.size_lt)
      (h.parse.streamSize_le.trans_eq h.valid.length_content.symm) h.parse.streamSize_le_max
    exact (processorProcess_ensures hfound hready).mono (fun _ _ _ => trivial)
      fun _ _ he => not_die_of_processorError he.1
  pop_ok := by
    have hpop := ringPop_spec h.valid s.progress.request.streamSize
    obtain ⟨_, ring, hring, -⟩ := (hpop.mono (fun _ _ hr => hr)
      fun _ _ hr => absurd h.parse.streamSize_le (Nat.not_le.mpr hr.2)).exists_ok
    exact ⟨ring, hring⟩

/-- In every state a session can reach, whatever arrived in whatever chunks, all lookups are in range
and nothing the client sent ends the server. -/
theorem session_safe (acceptingSocket : ℕ) {events : List SessionEvent} {s : Session}
    (hrun : Runs (SessionStep acceptingSocket) Session.start events s) : s.Safe acceptingSocket :=
  (hrun.invariant (Session.start_inv acceptingSocket) fun _ _ _ => SessionStep.inv).safe

/-- A Gopher request for `a` that wraps in its ring. -/
def wrappedRing : Ring := ⟨[13, 10, 0, 97], 3, 4, 3⟩

/-- What the parser makes of it. -/
def wrappedProgress : Progress :=
  ⟨{ Parser.zero with state := .end }, { Request.zero with streamSize := 3, resource := ⟨0, 1⟩ }⟩

theorem session_safe_wrapped : Session.Safe 4 ⟨wrappedRing, wrappedProgress⟩ := by
  have hvalid : wrappedRing.Valid := ⟨⟨rfl, by decide, by decide⟩, .inr ⟨2, by decide, rfl⟩⟩
  have hparse : parserParse 4 wrappedRing Progress.zero = .ok () wrappedProgress := by decide
  exact session_safe 4 (.cons (.receive (s := Session.start) hvalid rfl)
    (.cons (.parse hparse) (.nil _)))

end Twinkleshine
