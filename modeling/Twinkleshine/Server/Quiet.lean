import Twinkleshine.Server.Pass
import Twinkleshine.Server.Streams

/-!
# Visits in which nothing happens

A client that is not to be received from, whose requests are not to be parsed, and that is not to be
sent anything is visited in one round, which does nothing, and is then waited for. A connection that was
just accepted, and has sent nothing yet, is visited in two.
-/

namespace Twinkleshine

open Library

variable {i : ℕ} {v : Visit}

/-! ## Rounds -/

/-- Nothing is to be done for a client in a round. -/
structure NothingToDo (i : ℕ) (now : ℤ) (v : Visit) : Prop where
  first : v.first = true →
    (v.server.poll (pollIndex v.server i)).revents.pollErr = false ∧
      (v.server.poll (pollIndex v.server i)).revents.pollHup = false ∧
      ∃ remaining, checkTimeouts v.server i now none = .ok remaining
  receive : v.flags.exhausted = true ∨ v.flags.closed = true ∨
    getMakesSenseToReceive v.server i = false
  parse : getMakesSenseToParse v.server i = false
  send : v.flags.saturated = true ∨ getMakesSenseToSend v.server i = false

theorem roundFirst_of_live {now : ℤ} (h : v.first = true →
      (v.server.poll (pollIndex v.server i)).revents.pollErr = false ∧
        (v.server.poll (pollIndex v.server i)).revents.pollHup = false ∧
        ∃ remaining, checkTimeouts v.server i now none = .ok remaining) :
    roundFirst i now v = .ok () { v with first := false } := by
  unfold roundFirst
  by_cases hfirst : v.first = true
  · obtain ⟨herr, hhup, remaining, htimeouts⟩ := h hfirst
    rw [if_pos hfirst]
    dsimp only
    rw [herr, hhup, htimeouts]
    rfl
  · rw [if_neg hfirst, ← Bool.eq_false_iff.mpr hfirst]

theorem roundBlocks_quiet {now : ℤ} (h : NothingToDo i now v) (answers : RoundAnswers) :
    roundBlocks i now answers v = .ok () { v with first := false } := by
  have hreceive : ¬ (v.flags.exhausted = false ∧ v.flags.closed = false ∧
      getMakesSenseToReceive v.server i = true) := by
    rintro ⟨hexhausted, hclosed, hsense⟩
    rcases h.receive with hflag | hflag | hflag
    · rw [hflag] at hexhausted
      cases hexhausted
    · rw [hflag] at hclosed
      cases hclosed
    · rw [hflag] at hsense
      cases hsense
  have hsend : ¬ (v.flags.saturated = false ∧ getMakesSenseToSend v.server i = true) := by
    rintro ⟨hsaturated, hsense⟩
    rcases h.send with hflag | hflag
    · rw [hflag] at hsaturated
      cases hsaturated
    · rw [hflag] at hsense
      cases hsense
  rw [roundBlocks, roundFirst_of_live h.first, Outcome.andThen_ok, roundReceive, if_neg hreceive,
    Outcome.andThen_ok, if_neg Bool.false_ne_true, roundParse, if_neg (by rw [h.parse]; decide),
    Outcome.andThen_ok, roundSend, if_neg hsend]

/-- A quiet round ends the visit. -/
theorem serverProcessClientLoop_quiet {now : ℤ} (h : NothingToDo i now v) (remaining : ℤ)
    (answers : VisitAnswers) (fuel k : ℕ) :
    serverProcessClientLoop i now remaining answers (fuel + 1) k v
      = .ok (prepareToWait i now remaining v.server).2 (prepareToWait i now remaining v.server).1 := by
  have hround : serverProcessClientRound i now (answers.rounds k) { v with doneSomething := false }
      = .ok () { v with doneSomething := false, first := false } := by
    rw [serverProcessClientRound, roundBlocks_quiet (v := { v with doneSomething := false })
      ⟨h.first, h.receive, h.parse, h.send⟩]
    rfl
  rw [serverProcessClientLoop, hround, Outcome.handle_ok, if_neg Bool.false_ne_true]

/-! ## Connections that have sent nothing -/

/-- The kernel has nothing for a stream, and memory is granted. -/
def nothingRead : ReceiveAnswers := ⟨some fun _ => 0, .wouldBlock, .wouldBlock⟩

/-- A stream for which the kernel has nothing stays as it is. -/
theorem serverReceiveStream_nothing {stream : Ring} (h : stream.Valid) {size : ℕ} (hpos : 0 < size)
    (hsize : stream.size + size ≤ 2 ^ 63) (flags : ConnectionFlags) :
    ∃ r : Ring, r.Valid ∧ r.size = stream.size ∧ ringContent r = ringContent stream ∧
      serverReceiveStream size nothingRead flags stream
        = .ok () (r, { flags with exhausted := true }) := by
  obtain ⟨_, r, hreserve, hvalid, hcontent, hsame, hcapacity, -⟩ :=
    ((ringReserve_spec h hsize nothingRead.realloc).mono (fun _ _ hr => hr)
      fun _ _ hr => absurd hr.2 (by simp [nothingRead])).exists_ok
  have hfits : r.size + size ≤ r.capacity := hsame ▸ hcapacity
  have hcap := hvalid.capacity_le
  obtain ⟨value, pushed, hpush, hparts, hfill⟩ :=
    ((ringPushGet_fill hvalid (show r.size + size < 2 ^ 64 by omega)).mono (fun _ _ hr => hr)
      fun _ _ hr => absurd hr.2 (by omega)).exists_ok
  obtain ⟨r', hunpush, hvalid', hcontent', hgrown⟩ := hfill [] (Nat.zero_le _)
  have hread : readParts (value.reads nothingRead.reads) = .ok () ⟨[], false, true⟩ := by
    simp only [MutableValue.reads, nothingRead, readParts]
    split_ifs <;> first | rfl | omega
  refine ⟨r', hvalid', hgrown.trans hsame, hcontent'.trans (by rw [List.append_nil, hcontent]), ?_⟩
  rw [serverReceiveStream, hreserve, Outcome.handle_ok, hpush, Outcome.handle_ok, hread,
    Outcome.handle_ok]
  simp only [hparts]
  rw [List.length_nil, Nat.sub_zero] at hunpush ⊢
  rw [hunpush]
  simp

/-- A plain connection that has sent nothing, is sent nothing, and may wait longer. -/
structure Client.Idle (now : ℤ) (client : Client) : Prop where
  live : client.dead = false
  connection : acceptingSocketIsConnection client.acceptingSocket = true
  plain : client.ssl = false
  operational : client.cryptographyState = .operational
  progress : client.progress = .zero
  valid : client.requestStream.Valid
  empty : client.requestStream.size = 0
  output : client.responseStream.size = 0
  timeout : now ≤ client.lastRequestStreamNotEmpty + maxEmptyRequestStreamTime

/-- Its stream may be another one, if that is empty, too. -/
theorem Client.Idle.setStream {now : ℤ} {client : Client} (h : client.Idle now) {r : Ring}
    (hvalid : r.Valid) (hsize : r.size = 0) : ({ client with requestStream := r } : Client).Idle now :=
  ⟨h.live, h.connection, h.plain, h.operational, h.progress, hvalid, hsize, h.output, h.timeout⟩

/-- Client `i` is such a connection, and nothing bad happened on it. -/
structure Idles (i : ℕ) (now : ℤ) (s : Server) : Prop where
  lt : i < s.clients.elements.length
  client : (s.client i).Idle now
  notOwner : s.owns i = false
  pollErr : (s.ownPoll i).revents.pollErr = false
  pollHup : (s.ownPoll i).revents.pollHup = false

namespace Idles

variable {now : ℤ} {s : Server}

theorem pollIndex_eq (h : Idles i now s) : pollIndex s i = acceptingSockets + i := by
  rw [pollIndex, if_pos h.client.connection]

theorem clientResponseStreamSize_eq (h : Idles i now s) : clientResponseStreamSize s i = 0 := by
  rw [clientResponseStreamSize, h.client.output, h.notOwner]
  rfl

theorem checkTimeouts_eq (h : Idles i now s) : checkTimeouts s i now none = .ok none := by
  have hlist : clientTimeouts s i
      = [((s.client i).lastRequestStreamNotEmpty + maxEmptyRequestStreamTime, .shutdownLog)] := by
    simp [clientTimeouts, h.client.output, h.client.empty, h.clientResponseStreamSize_eq, maxResponseStreamSize,
      megabyte]
  rw [checkTimeouts, hlist, checkAll, checkTimeout, if_pos h.client.timeout]
  rfl

/-- Once there is nothing to be received, there is nothing to do. -/
theorem nothingToDo (h : Idles i now s) {v : Visit} (hv : v.server = s)
    (hexhausted : v.flags.exhausted = true) : NothingToDo i now v := by
  subst hv
  have hsize := h.clientResponseStreamSize_eq
  refine ⟨fun _ => ?_, .inl hexhausted, ?_, .inr ?_⟩
  · rw [h.pollIndex_eq]
    exact ⟨h.pollErr, h.pollHup, none, h.checkTimeouts_eq⟩
  · simp [getMakesSenseToParse, h.client.empty]
  · simp [getMakesSenseToSend, hsize]

/-- Its stream may be another one, if that is empty, too. -/
theorem setClient (h : Idles i now s) {r : Ring} (hvalid : r.Valid) (hsize : r.size = 0) :
    Idles i now (s.setClient i { s.client i with requestStream := r }) := by
  refine ⟨h.lt.trans_eq List.length_set.symm, ?_, h.notOwner, h.pollErr, h.pollHup⟩
  rw [Server.client_setClient h.lt]
  exact h.client.setStream hvalid hsize

/-- The round that finds out that there is nothing to be received. -/
theorem round (h : Idles i now s) {v : Visit} (hv : v.server = s)
    (hflags : v.flags.exhausted = false ∧ v.flags.closed = false) {answers : RoundAnswers}
    (havailable : answers.receive.available = .ok 0) (hread : answers.receive.stream = nothingRead) :
    ∃ r : Ring, r.Valid ∧ r.size = 0 ∧ serverProcessClientRound i now answers v
      = .ok () ⟨s.setClient i { s.client i with requestStream := r },
          { v.flags with exhausted := true }, false, true⟩ := by
  subst hv
  obtain ⟨hexhausted, hclosed⟩ := hflags
  have hsize := h.clientResponseStreamSize_eq
  have hlive := fun _ : v.first = true => show
      (v.server.poll (pollIndex v.server i)).revents.pollErr = false ∧
        (v.server.poll (pollIndex v.server i)).revents.pollHup = false ∧
        ∃ remaining, checkTimeouts v.server i now none = .ok remaining by
    rw [h.pollIndex_eq]
    exact ⟨h.pollErr, h.pollHup, none, h.checkTimeouts_eq⟩
  have hreceives : getMakesSenseToReceive v.server i = true := by
    simp [getMakesSenseToReceive, h.client.operational, h.client.progress, Progress.zero, Parser.zero, hsize,
      maxResponseStreamSize, megabyte]
  have havailableSize : availableSize (0 : ℤ).toNat (v.server.client i).requestStream.size
      = minAvailableRequestStream := by
    rw [h.client.empty]
    decide
  have hbound : (v.server.client i).requestStream.size + minAvailableRequestStream ≤ 2 ^ 63 := by
    rw [h.client.empty]
    decide
  obtain ⟨r, hvalid, hsame, hcontent, hstream⟩ := serverReceiveStream_nothing h.client.valid
    (by decide) hbound v.flags
  rw [h.client.empty] at hsame
  set t := v.server.setClient i { v.server.client i with requestStream := r } with ht
  have hidles : Idles i now t := h.setClient hvalid hsame
  have hself : t.client i = { v.server.client i with requestStream := r } :=
    Server.client_setClient h.lt _
  -- the round receives nothing
  have htraffic : serverReceiveTraffic i now answers.receive
      { v with first := false, doneSomething := true }
      = .ok () ⟨t, { v.flags with exhausted := true }, false, true⟩ := by
    have hconnection : ¬ acceptingSocketIsMessage (v.server.client i).acceptingSocket = true := by
      have := h.client.connection
      simp only [acceptingSocketIsConnection, acceptingSocketIsMessage, decide_eq_true_eq] at this ⊢
      omega
    have hnoted : (t.client i).noteNotEmpty now = t.client i := by
      rw [Client.noteNotEmpty, hidles.client.empty, if_neg (Nat.lt_irrefl 0)]
    rw [serverReceiveTraffic, if_neg hconnection, havailable]
    dsimp only
    rw [if_neg (by decide), if_neg (by decide), receiveData, havailableSize, hread, hstream]
    simp only [Outcome.mapState_ok, Outcome.andThen_ok, ← ht, hnoted, Server.setClient_client,
      hidles.client.plain, Bool.false_eq_true, if_false]
  have hterminated : clientTerminated i ⟨t, { v.flags with exhausted := true }, false, true⟩ = false := by
    simp [clientTerminated, hclosed, hidles.client.operational]
  have hreceive : roundReceive i now answers.receive { v with first := false }
      = .ok false ⟨t, { v.flags with exhausted := true }, false, true⟩ := by
    rw [roundReceive, if_pos ⟨hexhausted, hclosed, hreceives⟩, htraffic, Outcome.andThen_ok,
      hterminated]
    rfl
  -- and so there is nothing to be parsed, or to be sent
  have hparse : getMakesSenseToParse t i = false := by
    simp [getMakesSenseToParse, hidles.client.empty]
  have hsend : getMakesSenseToSend t i = false := by
    simp [getMakesSenseToSend, hidles.clientResponseStreamSize_eq]
  rw [serverProcessClientRound, roundBlocks, roundFirst_of_live hlive, Outcome.andThen_ok, hreceive,
    Outcome.andThen_ok, if_neg Bool.false_ne_true, roundParse, hparse, if_neg Bool.false_ne_true,
    Outcome.andThen_ok, roundSend, hsend, if_neg (fun hboth => Bool.false_ne_true hboth.2)]
  exact ⟨r, hvalid, hsame, rfl⟩

/-- A visit leaves such a client waiting for its first bytes. -/
theorem visit (h : Idles i now s) (remaining : ℤ) {answers : VisitAnswers}
    (havailable : (answers.rounds 0).receive.available = .ok 0)
    (hread : (answers.rounds 0).receive.stream = nothingRead) :
    ∃ (r : Ring) (remaining' : ℤ), r.Valid ∧ r.size = 0 ∧
      serverProcessClient i now remaining answers 2 s = .ok remaining'
        ((s.setClient i { s.client i with requestStream := r }).setPoll (acceptingSockets + i)
          { s.ownPoll i with events := ⟨true, false, true, true⟩ }) := by
  have hwait : ∀ t : Server, Idles i now t → t.ownPoll i = s.ownPoll i →
      (prepareToWait i now remaining t).1 = t.setPoll (acceptingSockets + i)
        { s.ownPoll i with events := ⟨true, false, true, true⟩ } := by
    intro t ht hpoll
    have hevents : waitEvents i t = ⟨true, false, true, true⟩ := by
      simp [waitEvents, getMakesSenseToReceive, getMakesSenseToSend, ht.client.operational, ht.client.progress,
        Progress.zero, Parser.zero, ht.clientResponseStreamSize_eq, maxResponseStreamSize, megabyte]
    rw [prepareToWait_fst, if_pos ht.client.connection, hpoll, hevents]
  unfold serverProcessClient
  by_cases hexhausted : (startVisit i s).flags.exhausted = true
  · refine ⟨(s.client i).requestStream, (prepareToWait i now remaining s).2, h.client.valid, h.client.empty, ?_⟩
    have hwaits := hwait s h rfl
    rw [serverProcessClientLoop_quiet (h.nothingToDo rfl hexhausted), Server.setClient_client,
      ← hwaits]
    rfl
  · obtain ⟨r, hvalid, hsize, hround⟩ := h.round (v := { startVisit i s with doneSomething := false })
      rfl ⟨Bool.eq_false_iff.mpr hexhausted, rfl⟩ havailable hread
    have hidles := h.setClient hvalid hsize
    set t := s.setClient i { s.client i with requestStream := r } with ht
    refine ⟨r, (prepareToWait i now remaining t).2, hvalid, hsize, ?_⟩
    rw [serverProcessClientLoop, hround, Outcome.handle_ok, if_pos rfl,
      serverProcessClientLoop_quiet (hidles.nothingToDo rfl rfl), ← hwait t hidles rfl]

end Idles

end Twinkleshine
