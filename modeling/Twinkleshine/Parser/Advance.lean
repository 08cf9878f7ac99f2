import Twinkleshine.Parser.Feed
import Twinkleshine.Session

/-!
# How far a call of the parser gets

A call of `parser_parse` that returns has counted all the bytes of the request stream, or has come to the
end of the request; and nothing ends before its first byte. So a request stream of which not all is parsed
gets shorter, or is parsed to its end.
-/

namespace Twinkleshine

open Library

/-- A part of which `n` characters are left, in a stream that is `limit` bytes long with it, was counted
up to them, or the request has ended; and the header has a byte at least. -/
structure Advanced (limit n : ℕ) (s : Progress) : Prop where
  counted : s.parser.state ≠ .end → s.request.streamSize + n = limit
  headed : s.Headed → 0 < s.request.streamSize

section

variable {Inv : Progress → Prop} {initial : ParserState} {step : Lookup → ParserStep} {lookup : Lookup}
  {shape : Progress → Prop} {w part : List UInt8} {limit n : ℕ} {c : UInt8} {s t : Progress}

/-- The content is counted to the end of the part, or to its own end. -/
theorem Advanced.content (h : Advanced limit n s) (hstate : s.parser.state = .waitContent) :
    Advanced limit 0 (parseContent n s) := by
  have hpos := h.headed (.inl hstate)
  have hcounted := h.counted (by rw [hstate]; decide)
  rw [parseContent]
  split_ifs
  · exact ⟨fun hend => absurd rfl hend, fun _ => Nat.add_pos_left hpos _⟩
  · exact ⟨fun _ => hcounted, fun _ => Nat.add_pos_left hpos _⟩

/-- A character is counted, or the part is left in the content or behind the end. -/
theorem Resumes.advanced (hp : Resumes Inv initial step) (hsafe : (step lookup).Safe shape w)
    (hlimit : limit ≤ w.length) (hs : PartInv shape limit (n + 1) s) (hbegin : s.parser.state ≠ .begin)
    (hadvanced : Advanced limit (n + 1) s) :
    (step lookup (n + 1) c s).Ensures
      (fun flow t => match flow with
        | .next => PartInv shape limit n t.bump ∧ t.parser.state ≠ .begin ∧ Advanced limit n t.bump
        | .halt => Advanced limit 0 t)
      fun _ _ => True := by
  have hfits := hs.fits
  refine ((hsafe (n + 1) c s (Nat.succ_pos n) (by omega) hs.within hs.shape).with_eq.and
    (hsafe.partInv hlimit hs)).mono (fun flow t ht => ?_) fun _ _ _ => trivial
  obtain ⟨⟨hsafe, hreturns⟩, hinv⟩ := ht
  cases flow with
  | next =>
    obtain ⟨-, hend, hne, -⟩ := hp.next hreturns
    have hcounted := hadvanced.counted hend
    refine ⟨hinv, hne, fun _ => ?_, fun _ => ?_⟩
    · rw [Progress.bump_streamSize, hsafe.1]
      omega
    · rw [Progress.bump_streamSize]
      exact Nat.succ_pos _
  | halt =>
    rcases hp.halt hbegin hreturns with ⟨hstate, rfl⟩ | ⟨hstate, rfl⟩
    · exact hadvanced.content hstate
    · exact ⟨fun hend => absurd hstate hend, hadvanced.headed⟩

/-- A part is counted to its end, or the request has ended in it. -/
theorem Resumes.part_advanced (hp : Resumes Inv initial step) (lookup : Lookup)
    (hsafe : (step lookup).Safe shape w)
    (hbegins : ∀ s, shape s → shape (s.begin initial)) (hcontent : initial ≠ .waitContent)
    (hfit : s.request.streamSize + part.length ≤ w.length) (hs : s.Within s.request.streamSize)
    (hshape : shape s) (hheaded : s.Headed → 0 < s.request.streamSize) :
    (parsePart initial (step lookup) part s).Ensures
      (fun _ t => Advanced (s.request.streamSize + part.length) 0 t ∧ (s.parser.state = .end → t = s))
      fun _ _ => True := by
  have hstart : Advanced (s.request.streamSize + part.length) part.length (s.begin initial) := by
    refine ⟨fun _ => by rw [Progress.begin_streamSize], fun hstate => ?_⟩
    rw [Progress.begin_streamSize]
    rw [Progress.begin] at hstate
    split_ifs at hstate
    · exact hstate.elim (fun h => absurd h hcontent) fun h => absurd h hp.initial_ne_end
    · exact hheaded hstate
  have hinv : PartInv shape (s.request.streamSize + part.length) part.length (s.begin initial) :=
    PartInv.begin ⟨Nat.le_refl _, hs, hshape⟩ hbegins
  have hadvanced : (parsePart initial (step lookup) part s).Ensures
      (fun _ t => Advanced (s.request.streamSize + part.length) 0 t) fun _ _ => True :=
    scan_ensures (fun n t => PartInv shape (s.request.streamSize + part.length) n t ∧
        t.parser.state ≠ .begin ∧ Advanced (s.request.streamSize + part.length) n t)
      (fun n c t ht => hp.advanced hsafe hfit ht.1 ht.2.1 ht.2.2) (fun t ht => ht.2.2) part
      ⟨hinv, Progress.begin_ne hp.initial_ne_begin s, hstart⟩
  refine hadvanced.with_eq.mono (fun _ t ht => ⟨ht.1, fun hend => ?_⟩) fun _ _ _ => trivial
  exact (hp.part_sameHeader (.inr hend) ht.2).ended hend

end

/-! ## The parsers -/

/-- Every parser function counts a part to its end, or to the end of the request. -/
theorem parserFunction_advanced {acceptingSocket : ℕ} {lookup : Lookup} {w part : List UInt8}
    {s : Progress} (h : Reads lookup w) (hfit : s.request.streamSize + part.length ≤ w.length)
    (hs : s.Within s.request.streamSize) (hshape : ParserShape acceptingSocket s)
    (hheaded : s.Headed → 0 < s.request.streamSize) :
    (parserFunction acceptingSocket lookup part s).Ensures
      (fun _ t => Advanced (s.request.streamSize + part.length) 0 t ∧ (s.parser.state = .end → t = s))
      fun _ _ => True := by
  have hgopher : Resumes (fun _ => True) .waitResourceEnd fun _ => parserParseGopherStep :=
    parserParseGopherStep_plain.resumes (by decide) (by decide)
  have hfinger : Resumes (fun _ => True) .waitMethodBegin fun _ => parserParseFingerStep :=
    parserParseFingerStep_plain.resumes (by decide) (by decide)
  have hgemini : ∀ protocol, Resumes (fun _ => True) .waitProtocolEnd
      fun _ => parserParseGeminiLikeStep protocol := fun protocol =>
    PlainStep.resumes (parserParseGeminiLikeStep_plain protocol) (by decide) (by decide)
  simp only [ParserShape, parserFunction] at hshape ⊢
  cases hprotocol : acceptingSocketProtocol acceptingSocket with
  | http | https =>
    exact parserParseHttpStep_resumes.part_advanced lookup (parserParseHttpStep_safe h) (fun _ _ => trivial)
      (by decide) hfit hs trivial hheaded
  | gopher | nex =>
    exact hgopher.part_advanced lookup (parserParseGopherStep_safe w) (fun _ _ => trivial)
      (by decide) hfit hs trivial hheaded
  | spartan =>
    exact parserParseSpartanStep_resumes.part_advanced lookup (parserParseSpartanStep_safe h)
      (fun _ _ => trivial) (by decide) hfit hs trivial hheaded
  | finger =>
    rw [hprotocol] at hshape
    exact hfinger.part_advanced lookup (parserParseFingerStep_safe w)
      (fun _ => FingerShape.begin) (by decide) hfit hs hshape hheaded
  | gemini | text | guppy =>
    rw [hprotocol] at hshape
    exact (hgemini _).part_advanced lookup (parserParseGeminiLikeStep_safe _ w)
      (fun _ => GeminiShape.begin) (by decide) hfit hs hshape hheaded

/-- A call of `parser_parse` that returns is at the end of the request, or has counted all of a request
stream that is not full. -/
theorem Session.Inv.parse_advances {acceptingSocket : ℕ} {s : Session} (h : s.Inv acceptingSocket)
    (hheaded : s.progress.Headed → 0 < s.progress.request.streamSize) :
    (parserParse acceptingSocket s.requestStream s.progress).Ensures
      (fun _ t => (t.parser.state ≠ .end → t.request.streamSize = s.requestStream.size ∧
          s.requestStream.size < maxRequestSize) ∧
        (t.Headed → 0 < t.request.streamSize))
      fun _ _ => True := by
  set w := ringContent s.requestStream with hw
  have hsize : w.length = s.requestStream.size := h.valid.length_content
  have hmaximum : maxRequestSize = 1048576 := rfl
  have hle := h.parse.streamSize_le
  have hmax := h.parse.streamSize_le_max
  -- what is handed out, as in the proof that the lookups are in range
  set front := w.take maxRequestSize with hfront
  have hlength : front.length = min s.requestStream.size maxRequestSize := by
    rw [hfront, List.length_take, hsize, Nat.min_comm]
  have hreads : Reads (ringLookup s.requestStream) front :=
    (ringLookup_reads h.valid.toSound h.valid.size_lt).of_front (List.take_prefix _ _)
  have hlocation := notParsedLocation_limit h.valid.size_lt hle hmax
  have hlimit : (notParsedLocation s.progress s.requestStream.size).limit ≤ front.length := by
    simp only [hlocation, ValueLocation.limit]
    omega
  obtain ⟨notParsed, hlookup, hbytes⟩ := hreads _ hlimit
  have hparts : notParsed.part0.length + notParsed.part1.length
      = front.length - s.progress.request.streamSize := by
    rw [← List.length_append, ← ConstantValue.bytes, hbytes, length_segment hlimit, hlocation, hlength]
  rw [parserParse, parserParseWith, hlookup]
  refine ((parserFunction_ensures hreads (by omega) h.parse.within h.parse.shape).and
    (parserFunction_advanced hreads (by omega) h.parse.within h.parse.shape hheaded)).andThen
      (fun _ t ht => ?_) fun _ _ _ => trivial
  obtain ⟨ht, hadvanced, -⟩ := ht
  have htfits := ht.fits
  refine (parserFunction_advanced hreads (by omega) ht.within ht.shape hadvanced.headed).andThen
    (fun _ u hu => ?_) fun _ _ _ => trivial
  obtain ⟨hadvanced', hended⟩ := hu
  split_ifs with hfull hend
  · exact ⟨fun hne => absurd hend hne, hadvanced'.headed⟩
  · exact trivial
  · refine ⟨fun hne => ?_, hadvanced'.headed⟩
    have htend : t.parser.state ≠ .end := fun hend => hne (by rw [hended hend, hend])
    have hcounted := hadvanced.counted htend
    have hcounted' := hadvanced'.counted hne
    exact ⟨by omega, by omega⟩

end Twinkleshine
