import Twinkleshine.Server.HighLevel
import Twinkleshine.Server.Reset

/-!
# What a client is told when it fails

Reference: the label `failure` of `server_process_client` in `source/server/high_level.c`, the flags of
`include/extended_error.h`.

An error packs its actions and its fixed response into one integer. `fixedResponse_eq` says what the
mask makes of it: the fixed responses after the first two go up by one, so that the mask keeps one bit
and every client is told the same.
-/

namespace Twinkleshine

open Library

/-! ## Packing and unpacking -/

/-- The bits of the actions. -/
def partialFlags : List ℕ :=
  [partialEefSend, partialEefShutdown, partialEefClose, partialEefLog, partialEefDie]

/-- The fixed responses a request can be refused with. -/
def requestFixedResponses : List FixedResponse :=
  [.requestInvalid, .maxAvailableRequestStream, .maxRequestHeaderSize, .maxRequestContentSize,
    .maxIncompleteRequestTime]

/-- The flags that carry a fixed response. -/
theorem eef_of_fixed {eef : Eef} {fixed : FixedResponse} (h : eef.fixed = some fixed) :
    eef = .sendShutdownLog fixed ∨ eef = .sendCloseLog fixed := by
  cases eef with
  | sendShutdownLog f => exact .inl (congrArg _ (Option.some.inj h))
  | sendCloseLog f => exact .inr (congrArg _ (Option.some.inj h))
  | shutdownLog => cases h
  | closeLog => cases h
  | closeLogDie => cases h
  | die => cases h

/-- Whatever fixed response was packed, what is unpacked is `FR_MAX_MEMORY`. -/
theorem fixedResponse_eq {e : ExError} {fixed : FixedResponse} (h : e.eef.fixed = some fixed)
    (hfixed : fixed ∈ requestFixedResponses) :
    e.fixedResponse = FixedResponse.maxMemory.code := by
  have hmask : ∀ f ∈ requestFixedResponses,
      (Eef.sendShutdownLog f).flags &&& 0xFFFFFF00 = FixedResponse.maxMemory.code ∧
        (Eef.sendCloseLog f).flags &&& 0xFFFFFF00 = FixedResponse.maxMemory.code := by decide
  rw [ExError.fixedResponse, ExError.flags]
  obtain heef | heef := eef_of_fixed h
  · rw [heef]
    exact (hmask fixed hfixed).1
  · rw [heef]
    exact (hmask fixed hfixed).2

/-- An error that carries a fixed response names the action that sends it. -/
theorem has_send_of_fixed {e : ExError} {fixed : FixedResponse} (h : e.eef.fixed = some fixed) :
    e.has partialEefSend = true := by
  rw [ExError.has, ExError.flags]
  obtain heef | heef := eef_of_fixed h <;> rw [heef] <;> cases fixed <;> rfl

/-- No fixed response reaches the bit of total failure. -/
theorem not_has_die_of_fixed {e : ExError} {fixed : FixedResponse} (h : e.eef.fixed = some fixed) :
    e.has partialEefDie = false := by
  rw [← Bool.not_eq_true, e.has_die_iff]
  rintro (hdie | hdie) <;> rw [hdie] at h <;> cases h

/-- The text about memory is the text of no other fixed response. -/
theorem failsafeText_ne (acceptingSocket : ℕ) {fixed : FixedResponse}
    (hfixed : fixed ∈ requestFixedResponses) :
    failsafeText acceptingSocket .maxMemory ≠ failsafeText acceptingSocket fixed := by
  unfold failsafeText
  revert hfixed
  cases acceptingSocketProtocol acceptingSocket <;> cases fixed <;> decide +kernel

/-! ## Effects of the actions -/

theorem effects_clientFinalize (i : ℕ) (s : Server) :
    (clientFinalize i s).effects = s.effects := by
  unfold clientFinalize
  dsimp only
  split_ifs <;> rfl

/-- Finalizing closes the socket at most once and does nothing else to the outside. -/
theorem effects_finalizeClient (i : ℕ) (s : Server) :
    ∃ closed : List Effect, (finalizeClient i s).effects = s.effects ++ closed ∧
      ∀ effect ∈ closed, ∃ birth, effect = .closed birth := by
  rw [finalizeClient, effects_clientFinalize]
  by_cases hconnection : acceptingSocketIsConnection (s.client i).acceptingSocket = true
  · rw [if_pos hconnection, pollFinalize]
    rcases (s.poll (pollIndex s i)).fd with _ | fd
    · exact ⟨[], (List.append_nil _).symm, by simp⟩
    · exact ⟨[.closed (s.poll (pollIndex s i)).birth], rfl, by simp⟩
  · rw [if_neg hconnection]
    exact ⟨[], (List.append_nil _).symm, by simp⟩

/-- What the label `failure` does to the outside: the fixed text if there is one, then it closes the
socket and prints the error. -/
theorem failureActions_effects (i taken : ℕ) {e : ExError} (s : Server)
    (hdie : e.has partialEefDie = false) :
    ∃ t rest, failureActions i taken e s = .ok () t ∧
      t.effects = (sendFixed i taken e s).effects ++ rest ∧
      ∀ effect ∈ rest, (∃ birth, effect = .closed birth) ∨ effect = .errorPrinted e.error := by
  have hfinalize : ∀ (flag : ℕ) (u : Server), ∃ closed : List Effect,
      (if e.has flag then finalizeClient i u else u).effects = u.effects ++ closed ∧
        ∀ effect ∈ closed, ∃ birth, effect = .closed birth := by
    intro flag u
    by_cases hflag : e.has flag = true
    · rw [if_pos hflag]
      exact effects_finalizeClient i u
    · rw [if_neg hflag]
      exact ⟨[], (List.append_nil _).symm, by simp⟩
  set sent := sendFixed i taken e s
  obtain ⟨closed₁, hclosed₁, honly₁⟩ := hfinalize partialEefShutdown sent
  obtain ⟨closed₂, hclosed₂, honly₂⟩ := hfinalize partialEefClose
    (if e.has partialEefShutdown then finalizeClient i sent else sent)
  have hall : ∀ effect ∈ closed₁ ++ closed₂, ∃ birth, effect = .closed birth := fun effect h =>
    (List.mem_append.mp h).elim (honly₁ effect) (honly₂ effect)
  simp only [failureActions, hdie, Bool.false_eq_true, if_false]
  refine ⟨_, closed₁ ++ closed₂ ++ if e.has partialEefLog then [.errorPrinted e.error] else [],
    rfl, ?_, fun effect h => ?_⟩
  · by_cases hlog : e.has partialEefLog = true
    · rw [if_pos hlog, if_pos hlog]
      simp only [Server.emit, hclosed₂, hclosed₁, List.append_assoc, sent]
    · rw [if_neg hlog, if_neg hlog, hclosed₂, hclosed₁, List.append_nil, List.append_assoc]
  · rcases List.mem_append.mp h with h | h
    · exact .inl (hall effect h)
    · split_ifs at h
      · exact .inr (List.mem_singleton.mp h)
      · cases h

/-! ## What is sent -/

/-- A fixed response was answered as the error that carries it asks: its own text was sent, and the
actions that were executed are those the flags name. -/
structure AnsweredAs (acceptingSocket : ℕ) (e : ExError) (fixed : FixedResponse)
    (text : List UInt8) : Prop where
  text_eq : text = failsafeText acceptingSocket fixed
  actions_eq : ∀ flag ∈ partialFlags, e.has flag = (e.eef.actions &&& flag != 0)

/-- What the label `failure` sends to a plaintext connection for an error that carries a fixed
response. -/
theorem sendFixed_effects {i taken : ℕ} {e : ExError} {fixed : FixedResponse} {s : Server}
    (hplain : (s.client i).ssl = false)
    (hconnection : acceptingSocketIsConnection (s.client i).acceptingSocket = true)
    (h : e.eef.fixed = some fixed) :
    (sendFixed i taken e s).effects = s.effects ++ [.sentFixed (s.poll (acceptingSockets + i)).birth
      ((processorFixedFailsafe (s.client i).acceptingSocket e.fixedResponse).take taken)] := by
  rw [sendFixed, if_pos ⟨has_send_of_fixed h, hplain⟩, if_pos hconnection, pollIndex,
    if_pos hconnection]
  rfl

/-- Whenever a round of a plaintext connection fails with an error that carries a fixed response, the
client is sent the text of another one: the text about memory. -/
theorem serverProcessClientLoop_fixedText {i : ℕ} {now remaining : ℤ} {answers : VisitAnswers}
    {fuel k : ℕ} {v w : Visit} {e : ExError} {fixed : FixedResponse}
    (hround : serverProcessClientRound i now (answers.rounds k) { v with doneSomething := false }
      = .error e w)
    (hcarries : e.eef.fixed = some fixed) (hfixed : fixed ∈ requestFixedResponses)
    (hplain : (w.server.client i).ssl = false)
    (hconnection : acceptingSocketIsConnection (w.server.client i).acceptingSocket = true) :
    let text := processorFixedFailsafe (w.server.client i).acceptingSocket e.fixedResponse
    (∃ t rest, serverProcessClientLoop i now remaining answers (fuel + 1) k v = .ok remaining t ∧
      t.effects = w.server.effects ++ .sentFixed (w.server.poll (acceptingSockets + i)).birth
        (text.take answers.taken) :: rest) ∧
      text = failsafeText (w.server.client i).acceptingSocket .maxMemory ∧
      ¬ AnsweredAs (w.server.client i).acceptingSocket e fixed text := by
  have htext : processorFixedFailsafe (w.server.client i).acceptingSocket e.fixedResponse
      = failsafeText (w.server.client i).acceptingSocket .maxMemory := by
    rw [fixedResponse_eq hcarries hfixed]
    rfl
  refine ⟨?_, htext, fun hanswered => ?_⟩
  · obtain ⟨t, rest, ht, heffects, -⟩ := failureActions_effects i answers.taken w.server
      (not_has_die_of_fixed hcarries)
    rw [sendFixed_effects hplain hconnection hcarries] at heffects
    refine ⟨t, rest, ?_, heffects.trans (List.append_assoc _ _ _)⟩
    rw [serverProcessClientLoop, hround, Outcome.handle_error, ht, Outcome.andThen_ok]
  · exact failsafeText_ne _ hfixed (htext ▸ hanswered.text_eq)

/-- The actions of an error that shuts the connection down are those it names only for an invalid
request: every other fixed response adds the bit that closes the connection at once. -/
theorem has_eq_actions_iff {e : ExError} {fixed : FixedResponse} (h : e.eef = .sendShutdownLog fixed)
    (hfixed : fixed ∈ requestFixedResponses) :
    (∀ flag ∈ partialFlags, e.has flag = (e.eef.actions &&& flag != 0)) ↔
      fixed = .requestInvalid := by
  have hall : ∀ f ∈ requestFixedResponses, (∀ flag ∈ partialFlags,
      ((Eef.sendShutdownLog f).flags &&& flag != 0)
        = ((Eef.sendShutdownLog f).actions &&& flag != 0)) ↔ f = .requestInvalid := by decide
  simp only [ExError.has, ExError.flags, h]
  exact hall fixed hfixed

/-! ## An invalid request -/

/-- An HTTP client that sent an invalid request. -/
def invalidRequestServer : Server :=
  let client : Client := { Client.zero with
    requestStream := .holding (ascii "GET / HTTP/9") 16, cryptographyState := .operational }
  let poll : Poll := ⟨some 5, ⟨true, false, true, true⟩, .none, 0⟩
  { Server.initial ⟨0, List.replicate acceptingSockets .zero ++ [poll], 32⟩ with
    clients := ⟨1, [client], 1⟩ }

/-- What the outside decides in a round in which nothing arrives and nothing can be sent. -/
def quietRound : RoundAnswers where
  receive := ⟨.ok 0, "Success", ⟨grantAll, .wouldBlock, .wouldBlock⟩,
    ⟨none, .wants, ⟨[], grantAll⟩, .wants, ⟨[], grantAll⟩, grantAll⟩⟩
  process := processAnswersFor .invalidResource
  shutdown := ⟨.wants, ⟨[], grantAll⟩, grantAll⟩
  send := ⟨⟨.wouldBlock, .wouldBlock⟩, ⟨.wouldBlock, .wouldBlock⟩⟩
  recovery := ⟨grantAll, ⟨none, [], grantAll⟩, ⟨.wants, ⟨[], grantAll⟩, grantAll⟩⟩

theorem serverProcessClientLoop_fixedText_invalid :
    ∃ e w, serverProcessClientRound 0 5 quietRound (startVisit 0 invalidRequestServer) = .error e w ∧
      e.eef.fixed = some .requestInvalid ∧
      let text := processorFixedFailsafe (w.server.client 0).acceptingSocket e.fixedResponse
      (∃ t rest, serverProcessClientLoop 0 5 intMax ⟨fun _ => quietRound, 1000⟩ (9 + 1) 0
          (startVisit 0 invalidRequestServer) = .ok intMax t ∧
        t.effects = w.server.effects ++ .sentFixed (w.server.poll (acceptingSockets + 0)).birth
          (text.take 1000) :: rest) ∧
        text = failsafeText (w.server.client 0).acceptingSocket .maxMemory ∧
        ¬ AnsweredAs (w.server.client 0).acceptingSocket e .requestInvalid text := by
  have hrun : (serverProcessClientRound 0 5 quietRound (startVisit 0 invalidRequestServer)).failsIn
      (fun e w => e.eef.fixed = some .requestInvalid ∧ (w.server.client 0).ssl = false ∧
        acceptingSocketIsConnection (w.server.client 0).acceptingSocket = true) = true := by
    decide +kernel
  obtain ⟨e, w, hround, hcheck⟩ := Outcome.exists_of_failsIn hrun
  obtain ⟨hcarries, hplain, hconnection⟩ := of_decide_eq_true hcheck
  have hrounds : serverProcessClientRound 0 5 ((⟨fun _ => quietRound, 1000⟩ : VisitAnswers).rounds 0)
      { startVisit 0 invalidRequestServer with doneSomething := false } = .error e w := hround
  exact ⟨e, w, hround, hcarries,
    serverProcessClientLoop_fixedText hrounds hcarries (by decide) hplain hconnection⟩

/-- The client that sent the invalid request is told that the server is out of memory. -/
theorem serverProcessClient_tellsMemory :
    ∃ remaining t, serverProcessClient 0 5 intMax ⟨fun _ => quietRound, 1000⟩ 10
        invalidRequestServer = .ok remaining t ∧
      t.effects = [.sentFixed 0 (processorFixedHttpFailsafe .maxMemory), .closed 0,
        .errorPrinted "Invalid symbol: 57"] ∧
      processorFixedHttpFailsafe .maxMemory ≠ processorFixedHttpFailsafe .requestInvalid := by
  have hrun : (serverProcessClient 0 5 intMax ⟨fun _ => quietRound, 1000⟩ 10
      invalidRequestServer).returnsIn (fun t => t.effects =
        [.sentFixed 0 (processorFixedHttpFailsafe .maxMemory), .closed 0,
          .errorPrinted "Invalid symbol: 57"]) = true := by decide +kernel
  obtain ⟨remaining, t, ht, hcheck⟩ := Outcome.exists_of_returnsIn hrun
  exact ⟨remaining, t, ht, of_decide_eq_true hcheck, by decide +kernel⟩

end Twinkleshine
