import Twinkleshine.Server.Attendance
import Twinkleshine.Server.Quiet

/-!
# Rounds and visits of a client that can be served

`Server.Ready` is what a round of `server_process_client_round` needs of a connection that is not
encrypted, and what it leaves behind. A round serves the client, or finds it finished, or fails with an
error that does not end the server; `serverProcessClientLoop_done` says the same of a whole visit. The
short response stream never stays with a client that is finished, but it may stay with one that fails.
-/

namespace Twinkleshine

open Library

/-! ## The owner while it is sent to -/

section

variable {i : ℕ} {s t : Server} {v w : Visit}

/-- The short response stream is the same. -/
structure SameShort (s t : Server) : Prop where
  block : t.clients.p = s.clients.p
  stream : t.shortResponseStream = s.shortResponseStream
  owner : t.shortResponseStreamOwner = s.shortResponseStreamOwner

/-- Something of the short response stream is left, if it belongs to client `i`. -/
def Server.ShortFilled (s : Server) (i : ℕ) : Prop :=
  s.owns i = true → s.shortResponseStream.size ≠ 0

theorem SameShort.owns_eq (h : SameShort s t) : t.owns i = s.owns i := by
  rw [Server.owns, Server.owns, h.owner, Server.pointer, Server.pointer, h.block]

theorem SameShort.filled (h : SameShort s t) (hs : s.ShortFilled i) : t.ShortFilled i := by
  intro howns
  rw [h.stream]
  exact hs (h.owns_eq ▸ howns)

theorem serverPopResponses_short {now : ℤ} {sent : ℕ} {f : Error → ExError}
    (h : (v.onServer fun s => (serverPopResponses i now sent s).mapError f) = .ok () w) :
    SameShort v.server w.server := by
  obtain ⟨t, ht, rfl⟩ := Outcome.mapState_eq_ok.mp h
  obtain ⟨u, -, rfl⟩ := Outcome.mapState_eq_ok.mp (Outcome.mapError_eq_ok.mp ht)
  exact ⟨rfl, rfl, rfl⟩

/-- When all of the short response stream is sent, it belongs to nobody. -/
theorem serverSendShortResponseStream_filled {now : ℤ} {answers : SendAnswer × SendAnswer}
    (h : serverSendShortResponseStream i now answers v = .ok () w) : w.server.ShortFilled i := by
  obtain ⟨sent, u, -, hpop⟩ := Outcome.andThen_eq_ok.mp h
  dsimp only at hpop
  by_cases hzero : u.server.shortResponseStream.size = 0
  · rw [if_pos hzero] at hpop
    refine (serverPopResponses_short hpop).filled fun howns => ?_
    rw [Server.owns_of_none rfl] at howns
    cases howns
  · rw [if_neg hzero] at hpop
    exact (serverPopResponses_short hpop).filled fun _ => hzero

/-- What is sent of the client's own stream does not touch the short one. -/
theorem serverSendLongOutputBuffer_short {now : ℤ} {answers : SendAnswer × SendAnswer}
    (hconnection : acceptingSocketIsConnection (v.server.client i).acceptingSocket = true)
    (h : serverSendLongOutputBuffer i now answers v = .ok () w) : SameShort v.server w.server := by
  obtain ⟨sent, u, hsend, hrest⟩ := Outcome.andThen_eq_ok.mp h
  rw [sendValue, if_pos hconnection] at hsend
  obtain ⟨taken, -, -, hserver⟩ := (sendStream_spec answers _ _).of_eq_ok hsend
  obtain ⟨_, x, hpop, hpops⟩ := Outcome.andThen_eq_ok.mp hrest
  obtain ⟨t, ht, rfl⟩ := Outcome.mapState_eq_ok.mp hpop
  obtain ⟨client, -, rfl⟩ := Server.onClient_eq_ok ht
  obtain ⟨hblock, hstream, howner⟩ := serverPopResponses_short hpops
  exact ⟨hblock.trans (congrArg (·.clients.p) hserver),
    hstream.trans (congrArg (·.shortResponseStream) hserver),
    howner.trans (congrArg (·.shortResponseStreamOwner) hserver)⟩

/-- What a round keeps of itself is the same. -/
structure Visit.SameRound (v w : Visit) : Prop where
  first : w.first = v.first
  doneSomething : w.doneSomething = v.doneSomething

theorem Visit.SameRound.trans {x : Visit} (h : v.SameRound w) (h' : w.SameRound x) : v.SameRound x :=
  ⟨h'.first.trans h.first, h'.doneSomething.trans h.doneSomething⟩

theorem Visit.onServer_round {α : Type} {f : Server → Outcome ExError Server α} {a : α}
    (h : v.onServer f = .ok a w) : v.SameRound w := by
  obtain ⟨t, -, rfl⟩ := Outcome.mapState_eq_ok.mp h
  exact ⟨rfl, rfl⟩

theorem sendStream_round {answers : SendAnswer × SendAnswer} {advance : ℕ → Server → Server}
    {stream : ConstantValue} {n : ℕ} (h : sendStream i answers advance stream v = .ok n w) :
    v.SameRound w := by
  rw [sendStream] at h
  rcases hsent : serverSendStream answers stream with ⟨_, r⟩ | ⟨e, r⟩ | _
  · rw [hsent] at h
    obtain ⟨-, rfl⟩ := Outcome.ok.inj h
    exact ⟨rfl, rfl⟩
  · rw [hsent] at h
    cases h
  · rw [hsent] at h
    cases h

theorem serverSendShortResponseStream_round {now : ℤ} {answers : SendAnswer × SendAnswer}
    (hconnection : acceptingSocketIsConnection (v.server.client i).acceptingSocket = true)
    (h : serverSendShortResponseStream i now answers v = .ok () w) : v.SameRound w := by
  obtain ⟨sent, u, hsend, hpop⟩ := Outcome.andThen_eq_ok.mp h
  rw [sendValue, if_pos hconnection] at hsend
  refine (sendStream_round hsend).trans ?_
  dsimp only at hpop
  by_cases hzero : u.server.shortResponseStream.size = 0
  · rw [if_pos hzero] at hpop
    have hround := Visit.onServer_round hpop
    exact ⟨hround.first, hround.doneSomething⟩
  · rw [if_neg hzero] at hpop
    exact Visit.onServer_round hpop

theorem serverSendLongOutputBuffer_round {now : ℤ} {answers : SendAnswer × SendAnswer}
    (hconnection : acceptingSocketIsConnection (v.server.client i).acceptingSocket = true)
    (h : serverSendLongOutputBuffer i now answers v = .ok () w) : v.SameRound w := by
  obtain ⟨sent, u, hsend, hrest⟩ := Outcome.andThen_eq_ok.mp h
  rw [sendValue, if_pos hconnection] at hsend
  obtain ⟨_, x, hpop, hpops⟩ := Outcome.andThen_eq_ok.mp hrest
  exact ((sendStream_round hsend).trans (Visit.onServer_round hpop)).trans (Visit.onServer_round hpops)

/-- A client that was sent to owns the short response stream only if something of it is left. -/
theorem serverSendTraffic_filled {now : ℤ} {answers : SendAnswers}
    (hconnection : acceptingSocketIsConnection (v.server.client i).acceptingSocket = true)
    (h : serverSendTraffic i now answers v = .ok () w) :
    w.server.ShortFilled i ∧ v.SameRound w := by
  obtain ⟨size, u, hshort, hrest⟩ := Outcome.andThen_eq_ok.mp h
  obtain ⟨_, x, hlong, hend⟩ := Outcome.andThen_eq_ok.mp hrest
  have hu : u.server.ShortFilled i ∧ v.SameRound u ∧
      acceptingSocketIsConnection (u.server.client i).acceptingSocket = true := by
    by_cases howns : v.server.owns i = true
    · rw [if_pos howns] at hshort
      obtain ⟨_, u', hsent, hsame⟩ := Outcome.andThen_eq_ok.mp hshort
      obtain ⟨-, rfl⟩ := Outcome.ok.inj hsame
      have hserves := (serverSendShortResponseStream_serves now answers.short).of_eq_ok hsent
      exact ⟨serverSendShortResponseStream_filled hsent,
        serverSendShortResponseStream_round hconnection hsent,
        hserves.self.acceptingSocket ▸ hconnection⟩
    · rw [if_neg howns] at hshort
      obtain ⟨-, rfl⟩ := Outcome.ok.inj hshort
      exact ⟨fun h => absurd h howns, ⟨rfl, rfl⟩, hconnection⟩
  obtain ⟨hfilled, hround, hconnection'⟩ := hu
  have hx : x.server.ShortFilled i ∧ v.SameRound x := by
    split_ifs at hlong
    · exact ⟨(serverSendLongOutputBuffer_short hconnection' hlong).filled hfilled,
        hround.trans (serverSendLongOutputBuffer_round hconnection' hlong)⟩
    · obtain ⟨-, rfl⟩ := Outcome.ok.inj hlong
      exact ⟨hfilled, hround⟩
  dsimp only at hend
  split_ifs at hend
  · obtain ⟨-, rfl⟩ := Outcome.ok.inj hend
    exact ⟨hx.1, hx.2.first, hx.2.doneSomething⟩
  · obtain ⟨-, rfl⟩ := Outcome.ok.inj hend
    exact hx

end

/-! ## Ready clients -/

section

variable {i : ℕ} {s t u : Server}

/-- Client `i` is connected without encryption, in a table that is in order, and can be served. -/
structure Server.Ready (s : Server) (i : ℕ) : Prop where
  lt : i < s.clients.elements.length
  owner : s.OwnerInv
  books : s.Books i
  pollBirth : (s.ownPoll i).birth = (s.client i).birth
  queued : s.Queued i
  noMessage : s.shortRequestMessageOwner = none

/-- Client `i` was served, and can be served again. -/
structure ServedOn (i : ℕ) (s t : Server) : Prop where
  served : Served i s t
  attends : Attends i s t
  ready : t.Ready i

theorem Server.Ready.on (h : s.Ready i) (hserved : Served i s t) (hattends : Attends i s t)
    (hserves : Serves i s t) (hqueued : t.Queued i) : ServedOn i s t := by
  refine ⟨hserved, hattends, hserves.length ▸ h.lt, hserved.owner, hserved.books, ?_, hqueued, ?_⟩
  · rw [Server.ownPoll, Server.poll, hserves.polls, hserves.self.birth]
    exact h.pollBirth
  · rcases hserves.messageOwner with ⟨hsame, -⟩ | ⟨-, hnone⟩
    · exact hsame.trans h.noMessage
    · exact hnone

theorem Server.Ready.refl (h : s.Ready i) : ServedOn i s s :=
  ⟨⟨.refl i s, h.owner, h.books⟩, .refl i s, h⟩

theorem ServedOn.trans (h : ServedOn i s t) (h' : ServedOn i t u) : ServedOn i s u :=
  ⟨⟨h.served.spares.trans h'.served.spares, h'.served.owner, h'.served.books⟩,
    h.attends.trans h'.attends, h'.ready⟩

/-- Serving client `i` failed, with an error that does not end the server. -/
structure RoundFailed (i : ℕ) (s t : Server) (e : ExError) : Prop where
  failed : ServingFailed i s t e
  attends : Attends i s t
  lives : e.has partialEefDie = false
  ssl : (t.client i).ssl = false
  noMessage : t.shortRequestMessageOwner = none

theorem Server.Ready.failed {e : ExError} (h : s.Ready i) (hfailed : ServingFailed i s t e)
    (hattends : Attends i s t) (hserves : Serves i s t) (he : e.has partialEefDie = false)
    (hssl : (t.client i).ssl = false) : RoundFailed i s t e := by
  refine ⟨hfailed, hattends, he, hssl, ?_⟩
  rcases hserves.messageOwner with ⟨hsame, -⟩ | ⟨-, hnone⟩
  · exact hsame.trans h.noMessage
  · exact hnone

/-- A client that was served on fails. -/
theorem ServedOn.failed {e : ExError} (h : ServedOn i s t) (h' : RoundFailed i t u e) :
    RoundFailed i s u e := by
  obtain ⟨⟨hspares, howner, hfront, hledger⟩, hattends, he, hssl, hnone⟩ := h'
  have hbirth := h.served.spares.self.birth
  exact ⟨⟨h.served.spares.trans hspares, howner, hbirth ▸ hfront, hbirth ▸ hledger⟩,
    h.attends.trans hattends, he, hssl, hnone⟩

/-- A ready client may fail for what the round finds. -/
theorem Server.Ready.fails (h : s.Ready i) {e : ExError} (he : e.has partialEefDie = false) :
    RoundFailed i s s e :=
  ⟨⟨.refl i s, h.owner, h.books.ledger.sentFromFront h.books.connection, fun _ => h.books.ledger⟩,
    .refl i s, he, h.books.plain.ssl, h.noMessage⟩

/-- The owner of the short response stream has a response in its queue when something of the stream is
left. -/
theorem Served.queued (h : Served i s t) (hfilled : t.ShortFilled i) : t.Queued i := by
  intro howns
  have howner := h.owner.of_owns howns
  obtain ⟨entries, part, done, rest, hledger⟩ := h.books.ledger
  have hlength := hledger.length_pending
  have hpart : entries = [] → part = 0 := hledger.queue.part_of_nil
  rw [hledger.queue.count]
  rcases entries with _ | ⟨entry, entries⟩
  · have hnothing : (t.pending i).length = 0 := by
      have hzero : totalSize [] = 0 := rfl
      omega
    rw [howner.pending_eq, ← valueSize_eq, howner.readable] at hnothing
    exact absurd hnothing (hfilled howns)
  · exact Nat.succ_pos _

end

/-! ## The blocks of a round -/

section

variable {i : ℕ} {v w : Visit}

/-- Client `i` was served, found to be finished, and finalized; nothing is left to be done for it. -/
structure RoundEnded (i : ℕ) (s : Server) (w : Visit) : Prop where
  served : ∃ u, ServedOn i s u ∧ u.owns i = false ∧ w.server = finalizeClient i u ∧
    (w.flags.closed = true ∨ (u.client i).progress.parser.state = .end)
  first : w.first = false
  doneSomething : w.doneSomething = true

/-- What a block did that returns. -/
structure BlockDone (i : ℕ) (v w : Visit) : Prop where
  on : ServedOn i v.server w.server
  first : w.first = v.first

/-- A timeout that has passed names one of the actions of the list. -/
theorem checkAll_eef {now : ℤ} {timeouts : List (ℤ × Eef)} {remaining : Option ℤ} {e : ExError}
    (h : checkAll now timeouts remaining = .error e) : ∃ timeout ∈ timeouts, e.eef = timeout.2 := by
  induction timeouts generalizing remaining with
  | nil => cases h
  | cons timeout timeouts ih =>
    obtain ⟨time, eef⟩ := timeout
    rw [checkAll] at h
    rcases hcheck : checkTimeout time now remaining with error | remaining'
    · rw [hcheck] at h
      obtain rfl := Except.error.inj h
      exact ⟨_, List.mem_cons_self, rfl⟩
    · rw [hcheck] at h
      obtain ⟨timeout, hmem, heef⟩ := ih h
      exact ⟨timeout, List.mem_cons_of_mem _ hmem, heef⟩

/-- No timeout ends the server. -/
theorem checkTimeouts_not_die {s : Server} {now : ℤ} {remaining : Option ℤ} {e : ExError}
    (h : checkTimeouts s i now remaining = .error e) : e.has partialEefDie = false := by
  obtain ⟨timeout, hmem, heef⟩ := checkAll_eef h
  rw [← Bool.not_eq_true, e.has_die_iff, heef]
  simp only [clientTimeouts, List.mem_append] at hmem
  rcases hmem with ((hmem | hmem) | hmem) | hmem
  all_goals
    split_ifs at hmem
    · rw [List.mem_singleton.mp hmem]
      simp
    · cases hmem

theorem roundFirst_done (h : v.server.Ready i) (now : ℤ) :
    (roundFirst i now v).Ensures (fun _ w => w = { v with first := false })
      fun e w => RoundFailed i v.server w.server e := by
  unfold roundFirst
  by_cases hfirst : v.first = true
  · rw [if_pos hfirst]
    dsimp only
    split_ifs
    · exact h.fails (ExError.not_has_die rfl)
    · rcases htimeouts : checkTimeouts v.server i now none with e | remaining
      · exact h.fails (checkTimeouts_not_die htimeouts)
      · exact rfl
  · rw [if_neg hfirst, ← Bool.eq_false_iff.mpr hfirst]
    exact rfl

/-- The checks pass, or fail with an error that closes the connection. -/
theorem assertAll_spec (checks : List (Bool × String)) (v : Visit) :
    (assertAll checks v).Ensures (fun _ w => w = v ∧ ∀ check ∈ checks, check.1 = true)
      fun e w => w = v ∧ e.eef = .closeLog := by
  induction checks with
  | nil => exact ⟨rfl, fun check hcheck => absurd hcheck List.not_mem_nil⟩
  | cons check checks ih =>
    rw [assertAll]
    by_cases hcheck : check.1 = true
    · rw [if_pos hcheck]
      exact ih.mono (fun _ _ hw => ⟨hw.1, List.forall_mem_cons.mpr ⟨hcheck, hw.2⟩⟩) fun _ _ hw => hw
    · rw [if_neg hcheck]
      exact ⟨rfl, rfl⟩

/-- A client without a response in its queue does not own the short response stream. -/
theorem Server.Queued.not_owns {s : Server} (h : s.Queued i) (hzero : (s.client i).responseCount = 0) :
    s.owns i = false :=
  Bool.eq_false_iff.mpr fun howns => absurd (h howns) (by rw [hzero]; exact Nat.lt_irrefl 0)

theorem roundReceive_done (h : v.server.Ready i) (hfirst : v.first = false) (now : ℤ)
    (answers : ReceiveTrafficAnswers) :
    (roundReceive i now answers v).Ensures
      (fun finalized w => if finalized then RoundEnded i v.server w else BlockDone i v w)
      fun e w => RoundFailed i v.server w.server e := by
  have hbooks := h.books
  have hplain := hbooks.plain
  unfold roundReceive
  by_cases hguard : v.flags.exhausted = false ∧ v.flags.closed = false ∧
      getMakesSenseToReceive v.server i = true
  swap
  · rw [if_neg hguard]
    exact ⟨h.refl, rfl⟩
  rw [if_pos hguard]
  have hreceive : (serverReceiveTraffic i now answers { v with doneSomething := true }).Ensures
      (fun _ w => ServedOn i v.server w.server ∧ w.first = v.first ∧ w.doneSomething = true)
      fun e w => RoundFailed i v.server w.server e := by
    refine (((serverReceiveTraffic_ensures (v := { v with doneSomething := true }) h.lt h.owner hbooks now
      answers).and (serverReceiveTraffic_meets (v := { v with doneSomething := true }) h.lt
        hbooks.connection hplain.ssl hplain.requests hbooks.bounded now answers)).frame
      (serverReceiveTraffic_serves now answers)).mono ?_ ?_
    · rintro _ w ⟨⟨⟨hserved, hqueued⟩, hwrites⟩, hserves⟩
      obtain ⟨available, r, bytes, -, rfl⟩ := hwrites
      exact ⟨h.on hserved ((Attends.refl i v.server).setClient _) hserves (hqueued h.queued), rfl, rfl⟩
    · rintro e w ⟨⟨⟨hfailed, he, hssl⟩, ⟨stream, hwrites⟩, -⟩, hserves⟩
      exact h.failed hfailed (hwrites ▸ (Attends.refl i v.server).setClient _) hserves he hssl
  refine hreceive.andThen (fun _ w hw => ?_) fun _ _ hw => hw
  obtain ⟨hon, hwfirst, hdone⟩ := hw
  -- the peer has closed and nothing is pending: the client is finalized if the checks agree
  by_cases hterminated : clientTerminated i w = true
  swap
  · rw [if_neg hterminated]
    exact ⟨hon, hwfirst⟩
  rw [if_pos hterminated]
  refine (assertAll_spec _ w).andThen (fun _ u hu => ?_) fun e u hu => ?_
  · obtain ⟨rfl, hchecks⟩ := hu
    have hcount : (u.server.client i).responseCount = 0 := by
      have hlast := hchecks ((u.server.client i).responseCount = 0, "client->response_count == 0")
        (by simp [clientTerminatedChecks])
      exact of_decide_eq_true hlast
    have hplain' := hon.ready.books.plain
    have hclosed : u.flags.closed = true := by
      simp only [clientTerminated, hplain'.operational, Bool.or_eq_true, Bool.and_eq_true,
        decide_eq_true_eq, reduceCtorEq, false_and, or_false] at hterminated
      exact hterminated
    exact ⟨⟨u.server, hon, hon.ready.queued.not_owns hcount, rfl, .inl hclosed⟩, hwfirst.trans hfirst,
      hdone⟩
  · obtain ⟨rfl, he⟩ := hu
    exact hon.failed (hon.ready.fails (ExError.not_has_die he))

theorem roundParse_done (h : v.server.Ready i) (now : ℤ) (answers : ProcessAnswers)
    (shutdown : ShutdownAnswers) :
    (roundParse i now answers shutdown v).Meets True (fun _ w => BlockDone i v w)
      fun e w => RoundFailed i v.server w.server e := by
  unfold roundParse
  by_cases hguard : getMakesSenseToParse v.server i = true
  swap
  · rw [if_neg hguard]
    exact ⟨h.refl, rfl⟩
  rw [if_pos hguard]
  have hstate : (v.server.client i).progress.parser.state ≠ .end := by
    simp only [getMakesSenseToParse, Bool.and_eq_true, decide_eq_true_eq] at hguard
    exact hguard.1.1.2
  refine (((((serverProcessTraffic_meets h.lt h.owner h.books hstate now answers).frame
    (serverProcessTraffic_attends now answers)).frame (serverProcessTraffic_serves now answers)).mapState
      _).andThen (fun _ w hw => ?_) fun e w hw => ?_)
  · obtain ⟨t, rfl, ⟨⟨hserved, hqueued⟩, hattends⟩, hserves⟩ := hw
    have hon := h.on hserved hattends hserves (hqueued h.queued)
    rw [if_neg (by simp [hon.ready.books.plain.ssl])]
    exact ⟨hon, rfl⟩
  · obtain ⟨t, rfl, ⟨⟨hfailed, he, hssl⟩, hattends⟩, hserves⟩ := hw
    exact h.failed hfailed hattends hserves he hssl

theorem roundSend_done (h : v.server.Ready i) (hfirst : v.first = false) (now : ℤ)
    (answers : SendAnswers) :
    (roundSend i now answers v).Ensures (fun _ w => BlockDone i v w ∨ RoundEnded i v.server w)
      fun e w => RoundFailed i v.server w.server e := by
  have hconnection := h.books.connection
  unfold roundSend
  by_cases hguard : v.flags.saturated = false ∧ getMakesSenseToSend v.server i = true
  swap
  · rw [if_neg hguard]
    exact .inl ⟨h.refl, rfl⟩
  rw [if_pos hguard]
  have hsend : (serverSendTraffic i now answers { v with doneSomething := true }).Ensures
      (fun _ w => ServedOn i v.server w.server ∧ w.first = v.first ∧ w.doneSomething = true)
      fun e w => RoundFailed i v.server w.server e := by
    refine (((serverSendTraffic_served (v := { v with doneSomething := true }) h.lt h.owner h.books
      h.pollBirth now answers).with_eq.frame (serverSendTraffic_attends now answers)).frame
        (serverSendTraffic_serves now answers)).mono ?_ ?_
    · rintro _ w ⟨⟨⟨hserved, hreturns⟩, hattends⟩, hserves⟩
      obtain ⟨hfilled, hround⟩ := serverSendTraffic_filled
        (v := { v with doneSomething := true }) hconnection hreturns
      exact ⟨h.on hserved hattends hserves (hserved.queued hfilled), hround.first, hround.doneSomething⟩
    · rintro e w ⟨⟨⟨⟨he, hfailed, hssl⟩, -⟩, hattends⟩, hserves⟩
      exact h.failed hfailed hattends hserves (ExError.not_has_die he) hssl
  refine hsend.andThen (fun _ w hw => ?_) fun _ _ hw => hw
  obtain ⟨hon, hwfirst, hdone⟩ := hw
  -- the last response is sent: the client is finalized if the checks agree
  by_cases hterminates : serverTerminates i w.server = true
  swap
  · rw [if_neg hterminates]
    exact .inl ⟨hon, hwfirst⟩
  rw [if_pos hterminates]
  refine (assertAll_spec _ w).andThen (fun _ u hu => ?_) fun e u hu => ?_
  · obtain ⟨rfl, hchecks⟩ := hu
    have hcount : (u.server.client i).responseCount = 0 := by
      have hlast := hchecks ((u.server.client i).responseCount = 0, "client->response_count == 0")
        (by simp [serverTerminatesChecks])
      exact of_decide_eq_true hlast
    have hend : (u.server.client i).progress.parser.state = .end := by
      simp only [serverTerminates, hon.ready.books.plain.ssl, Bool.or_eq_true, Bool.and_eq_true,
        decide_eq_true_eq, Bool.false_eq_true, false_and, or_false, decide_true, true_and] at hterminates
      exact hterminates.1
    exact .inr ⟨⟨u.server, hon, hon.ready.queued.not_owns hcount, rfl, .inr hend⟩, hwfirst.trans hfirst,
      hdone⟩
  · obtain ⟨rfl, he⟩ := hu
    exact hon.failed (hon.ready.fails (ExError.not_has_die he))

/-! ## Rounds -/

theorem RoundEnded.after {s t : Server} (h : RoundEnded i t w) (hon : ServedOn i s t) :
    RoundEnded i s w := by
  obtain ⟨u, hu, howns, hserver, hwhy⟩ := h.served
  exact ⟨⟨u, hon.trans hu, howns, hserver, hwhy⟩, h.first, h.doneSomething⟩

/-- What a round does for a client that can be served: it is served, or found to be finished, or fails. -/
theorem roundBlocks_done (h : v.server.Ready i) (now : ℤ) (answers : RoundAnswers) :
    (roundBlocks i now answers v).Meets True
      (fun _ w => (ServedOn i v.server w.server ∧ w.first = false) ∨ RoundEnded i v.server w)
      fun e w => RoundFailed i v.server w.server e := by
  unfold roundBlocks
  refine ((roundFirst_done h now).meets True).andThen (fun _ u hu => ?_) fun _ _ hw => hw
  have hu' : u.server = v.server := hu ▸ rfl
  have hufirst : u.first = false := hu ▸ rfl
  have hready : u.server.Ready i := hu' ▸ h
  rw [← hu']
  refine ((roundReceive_done hready hufirst now answers.receive).meets True).andThen
    (fun finalized w hw => ?_) fun _ _ hw => hw
  by_cases hfinalized : finalized = true
  · rw [if_pos hfinalized] at hw ⊢
    exact .inr hw
  rw [if_neg hfinalized] at hw ⊢
  refine (roundParse_done hw.on.ready now answers.process answers.shutdown).andThen (fun _ x hx => ?_)
    fun _ _ hx => hw.on.failed hx
  have hon := hw.on.trans hx.on
  have hxfirst : x.first = false := hx.first.trans (hw.first.trans hufirst)
  refine ((roundSend_done hx.on.ready hxfirst now answers.send).meets True).mono (fun _ y hy => ?_)
    fun _ _ hy => hon.failed hy
  rcases hy with hy | hy
  · exact .inl ⟨hon.trans hy.on, hy.first.trans hxfirst⟩
  · exact .inr (hy.after hon)

/-- A round that fails is not recovered: the client is not encrypted. -/
theorem serverProcessClientRound_done (h : v.server.Ready i) (now : ℤ) (answers : RoundAnswers) :
    (serverProcessClientRound i now answers v).Meets True
      (fun _ w => (ServedOn i v.server w.server ∧ w.first = false) ∨ RoundEnded i v.server w)
      fun e w => RoundFailed i v.server w.server e := by
  unfold serverProcessClientRound
  refine (roundBlocks_done h now answers).handle (fun _ _ hw => hw) fun e w hw => ?_
  have hrecovers : ¬ roundRecovers i e w.server = true := by
    rw [roundRecovers, hw.ssl]
    exact Bool.false_ne_true
  rw [if_neg hrecovers]
  exact hw

/-! ## Visits -/

/-- The loop reaches its label `failure` in a round, with the error of the round. -/
inductive LoopFails (i : ℕ) (now : ℤ) (answers : VisitAnswers) : ℕ → Visit → ExError → Visit → Prop where
  | now {k : ℕ} {v w : Visit} {e : ExError}
      (fails : serverProcessClientRound i now (answers.rounds k) { v with doneSomething := false }
        = .error e w) : LoopFails i now answers k v e w
  | later {k : ℕ} {v u w : Visit} {e : ExError}
      (returns : serverProcessClientRound i now (answers.rounds k) { v with doneSomething := false }
        = .ok () u) (doneSomething : u.doneSomething = true)
      (fails : LoopFails i now answers (k + 1) u e w) : LoopFails i now answers k v e w

/-- What becomes of a client that is visited. -/
inductive VisitDone (i : ℕ) (now remaining : ℤ) (answers : VisitAnswers) (k : ℕ) (v : Visit)
    (s : Server) : ℤ → Server → Prop where
  | waits {t : Server} (on : ServedOn i s t) : VisitDone i now remaining answers k v s
      (prepareToWait i now remaining t).2 (prepareToWait i now remaining t).1
  | ends {t : Server} (on : ServedOn i s t) (unowned : t.owns i = false) :
      VisitDone i now remaining answers k v s (prepareToWait i now remaining (finalizeClient i t)).2
        (prepareToWait i now remaining (finalizeClient i t)).1
  | fails {w : Visit} {e : ExError} {t : Server} (fails : LoopFails i now answers k v e w)
      (failed : RoundFailed i s w.server e)
      (actions : failureActions i answers.taken e w.server = .ok () t) :
      VisitDone i now remaining answers k v s remaining t

/-- A client that is finalized is written, and its descriptor closed, while no message was received. -/
theorem finalizeClient_eq {s : Server} (hnone : s.shortRequestMessageOwner = none) :
    ∃ polls closed, finalizeClient i s = { s.setClient i (s.client i).finalized with
        polls := polls, effects := s.effects ++ closed } ∧
      ∀ effect ∈ closed, effect = .closed (s.ownPoll i).birth := by
  have hwrites : ∀ (polls : Buffer Poll) (effects : List Effect),
      clientFinalize i { s with polls := polls, effects := effects }
        = { s.setClient i (s.client i).finalized with polls := polls, effects := effects } := by
    intro polls effects
    have hnobody : ¬ s.shortRequestMessageOwner = some (s.pointer i) := by
      rw [hnone]
      exact nofun
    rw [clientFinalize_eq]
    exact congrArg₂ (fun stream owner => { s.setClient i (s.client i).finalized with
      polls := polls, effects := effects
      shortResponseStream := stream, shortResponseStreamOwner := owner }) (if_neg hnobody) (if_neg hnobody)
  have hsame : ∃ polls closed, clientFinalize i s = { s.setClient i (s.client i).finalized with
        polls := polls, effects := s.effects ++ closed } ∧
      ∀ effect ∈ closed, effect = .closed (s.ownPoll i).birth :=
    ⟨s.polls, [], by rw [List.append_nil]; exact hwrites s.polls s.effects,
      fun effect heffect => absurd heffect List.not_mem_nil⟩
  unfold finalizeClient
  by_cases hconnection : acceptingSocketIsConnection (s.client i).acceptingSocket = true
  · rw [if_pos hconnection, pollIndex, if_pos hconnection, pollFinalize]
    rcases (s.poll (acceptingSockets + i)).fd with _ | fd
    · exact hsame
    · exact ⟨_, [.closed (s.ownPoll i).birth], hwrites _ _,
        fun effect heffect => List.mem_singleton.mp heffect⟩
  · rw [if_neg hconnection]
    exact hsame

/-- Nothing is to be done for a client that was finalized. -/
theorem RoundEnded.nothingToDo {s : Server} (h : RoundEnded i s w) (now : ℤ) :
    NothingToDo i now w := by
  obtain ⟨u, hon, howns, hserver, hwhy⟩ := h.served
  obtain ⟨polls, closed, hfinalized, -⟩ := finalizeClient_eq (i := i) hon.ready.noMessage
  have hclient : w.server.client i = (u.client i).finalized := by
    rw [hserver, hfinalized]
    exact Server.client_setClient hon.ready.lt _
  have hsize : clientResponseStreamSize w.server i = 0 := by
    have howns' : w.server.owns i = false := by
      rw [hserver, hfinalized]
      exact howns
    rw [clientResponseStreamSize, hclient, howns']
    rfl
  refine ⟨fun hfirst => absurd (h.first.symm.trans hfirst) Bool.false_ne_true, ?_, ?_, .inr ?_⟩
  · rcases hwhy with hclosed | hend
    · exact .inr (.inl hclosed)
    · refine .inr (.inr ?_)
      have hstate : (w.server.client i).progress.parser.state = .end := by
        rw [hclient]
        exact hend
      have hmessage : acceptingSocketIsMessage (w.server.client i).acceptingSocket = false := by
        rw [hclient]
        exact Bool.eq_false_iff.mpr (not_message_of_connection hon.ready.books.connection)
      simp [getMakesSenseToReceive, hstate, hmessage]
  · have hempty : (w.server.client i).requestStream.size = 0 := by
      rw [hclient]
      rfl
    simp [getMakesSenseToParse, hempty]
  · simp [getMakesSenseToSend, hsize]

/-- A visit serves a client until nothing is left to be done, or the client is finished, or fails. It
never ends the server. -/
theorem serverProcessClientLoop_done {s : Server} (now remaining : ℤ) (answers : VisitAnswers)
    (fuel k : ℕ) (h : ServedOn i s v.server) :
    (serverProcessClientLoop i now remaining answers fuel k v).Meets True
      (fun remaining' t => VisitDone i now remaining answers k v s remaining' t)
      fun _ _ => False := by
  -- by induction on the rounds that are left
  induction fuel generalizing k v with
  | zero => exact trivial
  | succ fuel ih =>
    rw [serverProcessClientLoop]
    have hround := serverProcessClientRound_done (v := { v with doneSomething := false }) h.ready now
      (answers.rounds k)
    rcases hreturns : serverProcessClientRound i now (answers.rounds k) { v with doneSomething := false }
      with ⟨_, w⟩ | ⟨e, w⟩ | _
    · rw [hreturns] at hround
      rw [Outcome.handle_ok]
      rcases hround with ⟨hon, -⟩ | hended
      · by_cases hdone : w.doneSomething = true
        · rw [if_pos hdone]
          refine (ih (k + 1) (h.trans hon)).mono (fun remaining' t ht => ?_) fun _ _ => id
          cases ht with
          | waits on => exact .waits on
          | ends on unowned => exact .ends on unowned
          | fails fails failed actions => exact .fails (.later hreturns hdone fails) failed actions
        · rw [if_neg hdone]
          exact .waits (h.trans hon)
      · -- a finalized client has nothing to do in the round that follows
        rw [if_pos hended.doneSomething]
        have hended' := hended.after h
        obtain ⟨u, hon, howns, hserver, -⟩ := hended'.served
        rcases fuel with _ | fuel
        · exact trivial
        · rw [serverProcessClientLoop_quiet (hended.nothingToDo now), hserver]
          exact .ends hon howns
    · rw [hreturns] at hround
      have hfailed := h.failed hround
      obtain ⟨t, -, hactions, -⟩ := failureActions_effects i answers.taken w.server hround.lives
      rw [Outcome.handle_error, hactions, Outcome.andThen_ok]
      exact .fails (.now hreturns) hfailed hactions
    · exact trivial

end

end Twinkleshine
