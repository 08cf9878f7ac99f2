import Twinkleshine.Server.Frame

/-!
# What a visit does

`Visited i` says what a visit of client `i` may change, from the first round to the actions at its
failure. What becomes of the client is its `Fate`: it lives on with its descriptor, or it is finalized,
and the descriptor is closed if it was open.
-/

namespace Twinkleshine

open Library

/-! ## Visited clients -/

/-- The number a poll is closed under, if it has a descriptor. -/
def Poll.closing (poll : Poll) : List ℕ := if poll.fd.isSome then [poll.birth] else []

/-- A client is still the same one, dead or alive. -/
structure Client.SamePeer (c d : Client) : Prop where
  acceptingSocket : d.acceptingSocket = c.acceptingSocket
  address : d.address = c.address
  shuffleIndex : d.shuffleIndex = c.shuffleIndex
  birth : d.birth = c.birth

theorem Client.SamePeer.refl (c : Client) : c.SamePeer c := ⟨rfl, rfl, rfl, rfl⟩

theorem Client.SamePeer.trans {c d e : Client} (h : c.SamePeer d) (h' : d.SamePeer e) :
    c.SamePeer e :=
  ⟨h'.acceptingSocket.trans h.acceptingSocket, h'.address.trans h.address,
    h'.shuffleIndex.trans h.shuffleIndex, h'.birth.trans h.birth⟩

theorem Client.SameIdentity.peer {c d : Client} (h : c.SameIdentity d) : c.SamePeer d :=
  ⟨h.acceptingSocket, h.address, h.shuffleIndex, h.birth⟩

/-- What became of client `i` and its descriptor, when these descriptors were closed. -/
inductive Fate (i : ℕ) (s t : Server) (closed : List ℕ) : Prop where
  | lives (dead : (t.client i).dead = (s.client i).dead)
      (fd : (t.ownPoll i).fd = (s.ownPoll i).fd) (none : closed = [])
  | dies (dead : (t.client i).dead = true)
      (fd : (t.ownPoll i).fd = if acceptingSocketIsConnection (s.client i).acceptingSocket then none
        else (s.ownPoll i).fd)
      (once : closed = if acceptingSocketIsConnection (s.client i).acceptingSocket then
        (s.ownPoll i).closing else [])

/-- Client `i` was visited. -/
structure Visited (i : ℕ) (s t : Server) : Prop where
  block : t.clients.p = s.clients.p
  length : t.clients.elements.length = s.clients.elements.length
  polls : t.polls.elements.length = s.polls.elements.length
  otherPolls : ∀ k, k ≠ acceptingSockets + i → t.poll k = s.poll k
  pollBirth : (t.ownPoll i).birth = (s.ownPoll i).birth
  births : t.births = s.births
  message : t.shortRequestMessage = s.shortRequestMessage
  messageOwner : t.shortRequestMessageOwner = s.shortRequestMessageOwner ∧
      t.shortRequestMessageSize = s.shortRequestMessageSize ∨
    s.shortRequestMessageOwner = some (s.pointer i) ∧ t.shortRequestMessageOwner = none
  self : (s.client i).SamePeer (t.client i)
  others : ∀ j, j ≠ i → ∃ stream, t.client j = { s.client j with responseStream := stream }
  fate : ∃ more, t.effects = s.effects ++ more ∧ Fate i s t (closedIn more)

variable {i : ℕ} {s t u : Server}

/-- A client that is finalized again closes nothing again. -/
theorem Fate.trans {closed closed' : List ℕ} (h : Fate i s t closed) (h' : Fate i t u closed')
    (hself : (s.client i).SamePeer (t.client i)) (hbirth : (t.ownPoll i).birth = (s.ownPoll i).birth) :
    Fate i s u (closed ++ closed') := by
  have hsocket := hself.acceptingSocket
  rcases h with ⟨hdead, hfd, hnone⟩ | ⟨hdead, hfd, honce⟩
  · have hclosing : (t.ownPoll i).closing = (s.ownPoll i).closing := by
      rw [Poll.closing, Poll.closing, hfd, hbirth]
    rw [hnone, List.nil_append]
    rcases h' with ⟨hdead', hfd', hnone'⟩ | ⟨hdead', hfd', honce'⟩
    · exact .lives (hdead'.trans hdead) (hfd'.trans hfd) hnone'
    · rw [hsocket, hfd] at hfd'
      rw [hsocket, hclosing] at honce'
      exact .dies hdead' hfd' honce'
  · rcases h' with ⟨hdead', hfd', hnone'⟩ | ⟨hdead', hfd', honce'⟩
    · refine .dies (hdead'.trans hdead) (hfd'.trans hfd) ?_
      rw [hnone', List.append_nil, honce]
    · rw [hsocket, hfd] at hfd'
      rw [hsocket] at honce'
      by_cases hconnection : acceptingSocketIsConnection (s.client i).acceptingSocket = true
      · rw [if_pos hconnection] at hfd hfd' honce honce'
        have hnothing : (t.ownPoll i).closing = [] := by
          rw [Poll.closing, hfd]
          rfl
        refine .dies hdead' ?_ ?_
        · rw [if_pos hconnection, hfd']
        · rw [if_pos hconnection, honce, honce', hnothing, List.append_nil]
      · rw [if_neg hconnection] at hfd hfd' honce honce'
        refine .dies hdead' ?_ ?_
        · rw [if_neg hconnection, hfd', if_neg hconnection]
        · rw [if_neg hconnection, honce, honce', List.append_nil]

namespace Visited

theorem trans (h : Visited i s t) (h' : Visited i t u) : Visited i s u := by
  obtain ⟨more, hmore, hfate⟩ := h.fate
  obtain ⟨more', hmore', hfate'⟩ := h'.fate
  refine ⟨h'.block.trans h.block, h'.length.trans h.length, h'.polls.trans h.polls,
    fun k hk => (h'.otherPolls k hk).trans (h.otherPolls k hk), h'.pollBirth.trans h.pollBirth,
    h'.births.trans h.births, h'.message.trans h.message, ?_, h.self.trans h'.self, ?_,
    more ++ more', ?_, ?_⟩
  · have hpointer : t.pointer i = s.pointer i := by rw [Server.pointer, Server.pointer, h.block]
    rcases h.messageOwner with ⟨howner, hsize⟩ | ⟨howner, hnone⟩
    · rcases h'.messageOwner with ⟨howner', hsize'⟩ | ⟨howner', hnone'⟩
      · exact .inl ⟨howner'.trans howner, hsize'.trans hsize⟩
      · exact .inr ⟨howner.symm.trans (howner'.trans (congrArg some hpointer)), hnone'⟩
    · rcases h'.messageOwner with ⟨howner', -⟩ | ⟨howner', -⟩
      · exact .inr ⟨howner, howner'.trans hnone⟩
      · rw [hnone] at howner'
        cases howner'
  · intro j hj
    obtain ⟨stream, hstream⟩ := h.others j hj
    obtain ⟨stream', hstream'⟩ := h'.others j hj
    exact ⟨stream', by rw [hstream', hstream]⟩
  · rw [hmore', hmore, List.append_assoc]
  · rw [closedIn_append]
    exact hfate.trans hfate' h.self h.pollBirth

end Visited

/-- A client that was served lives on. -/
theorem Serves.visited (h : Serves i s t) : Visited i s t := by
  have hpoll : ∀ k, t.poll k = s.poll k := fun k => by rw [Server.poll, Server.poll, h.polls]
  obtain ⟨more, hmore, hclosed⟩ := h.told
  exact ⟨h.block, h.length, congrArg (·.elements.length) h.polls, fun k _ => hpoll k,
    congrArg Poll.birth (hpoll _), h.births, h.message, h.messageOwner, h.self.peer, h.others, more,
    hmore, .lives h.self.dead (congrArg Poll.fd (hpoll _)) hclosed⟩

theorem Visited.refl (i : ℕ) (s : Server) : Visited i s s := (Serves.refl i s).visited

/-! ## The end of a client -/

theorem Server.poll_setPoll {k : ℕ} (hk : k < s.polls.elements.length) (poll : Poll) :
    (s.setPoll k poll).poll k = poll := by
  simp [Server.poll, Server.setPoll, hk]

theorem Server.poll_setPoll_of_ne (s : Server) {k l : ℕ} (h : k ≠ l) (poll : Poll) :
    (s.setPoll k poll).poll l = s.poll l := by
  simp [Server.poll, Server.setPoll, List.getD_eq_getElem?_getD, h]

theorem Server.setPoll_of_length_le {k : ℕ} (h : s.polls.elements.length ≤ k) (poll : Poll) :
    s.setPoll k poll = s := by
  rw [Server.setPoll, List.set_eq_of_length_le h]

/-- The poll of a client is written, but not its descriptor. -/
theorem Visited.setPoll {poll : Poll} (hfd : poll.fd = (s.ownPoll i).fd)
    (hbirth : poll.birth = (s.ownPoll i).birth) :
    Visited i s (s.setPoll (acceptingSockets + i) poll) := by
  have hown : ((s.setPoll (acceptingSockets + i) poll).ownPoll i).fd = (s.ownPoll i).fd ∧
      ((s.setPoll (acceptingSockets + i) poll).ownPoll i).birth = (s.ownPoll i).birth := by
    by_cases hk : acceptingSockets + i < s.polls.elements.length
    · rw [Server.ownPoll, Server.poll_setPoll hk]
      exact ⟨hfd, hbirth⟩
    · rw [Server.setPoll_of_length_le (Nat.not_lt.mp hk)]
      exact ⟨rfl, rfl⟩
  exact ⟨rfl, rfl, List.length_set, fun k hk => Server.poll_setPoll_of_ne s hk.symm poll, hown.2, rfl,
    rfl, .inl ⟨rfl, rfl⟩, .refl _, fun _ _ => ⟨_, rfl⟩, [], (List.append_nil _).symm,
    .lives rfl hown.1 rfl⟩

/-- `poll_finalize` closes an open descriptor. -/
theorem pollFinalize_closes (k : ℕ) (s : Server) :
    ((pollFinalize k s).poll k).fd = none ∧ ((pollFinalize k s).poll k).birth = (s.poll k).birth ∧
      ∃ more, (pollFinalize k s).effects = s.effects ++ more ∧
        closedIn more = (s.poll k).closing := by
  unfold pollFinalize
  rcases hfd : (s.poll k).fd with _ | fd
  · refine ⟨hfd, rfl, [], (List.append_nil _).symm, ?_⟩
    rw [Poll.closing, hfd]
    rfl
  · have hk : k < s.polls.elements.length := by
      by_contra hout
      rw [Server.poll, List.getD_eq_getElem?_getD, List.getElem?_eq_none (Nat.not_lt.mp hout)] at hfd
      cases hfd
    have hset : ∀ t : Server, t.polls = s.polls → ∀ poll, (t.setPoll k poll).poll k = poll :=
      fun t ht poll => Server.poll_setPoll (by rw [ht]; exact hk) poll
    dsimp only
    rw [hset (s.emit (.closed (s.poll k).birth)) rfl]
    refine ⟨rfl, rfl, [.closed (s.poll k).birth], rfl, ?_⟩
    rw [Poll.closing, hfd]
    rfl

/-- `poll_finalize` changes one poll, and tells what it closes. -/
theorem pollFinalize_frame (k : ℕ) (s : Server) : ∃ polls effects,
    pollFinalize k s = { s with polls := polls, effects := effects } ∧
      polls.elements.length = s.polls.elements.length ∧
      ∀ l, l ≠ k → polls.elements.getD l .zero = s.poll l := by
  unfold pollFinalize
  rcases (s.poll k).fd with _ | fd
  · exact ⟨s.polls, s.effects, rfl, rfl, fun _ _ => rfl⟩
  · exact ⟨_, _, rfl, List.length_set, fun l hl => Server.poll_setPoll_of_ne s hl.symm _⟩

/-- Client `i` is finalized, and its poll with it. -/
theorem Visited.finalized (hi : i < s.clients.elements.length) {polls : Buffer Poll}
    {more : List Effect} (stream : TextValue) (owner : Option ClientPointer)
    (hlength : polls.elements.length = s.polls.elements.length)
    (hothers : ∀ k, k ≠ acceptingSockets + i → polls.elements.getD k .zero = s.poll k)
    (hbirth : (polls.elements.getD (acceptingSockets + i) .zero).birth = (s.ownPoll i).birth)
    (hfd : (polls.elements.getD (acceptingSockets + i) .zero).fd
      = if acceptingSocketIsConnection (s.client i).acceptingSocket then none else (s.ownPoll i).fd)
    (hclosed : closedIn more = if acceptingSocketIsConnection (s.client i).acceptingSocket then
      (s.ownPoll i).closing else []) :
    Visited i s { s.setClient i (s.client i).finalized with
      polls := polls, effects := s.effects ++ more
      shortResponseStream := stream, shortResponseStreamOwner := owner } := by
  have hself := Server.client_setClient hi (s.client i).finalized
  refine ⟨rfl, List.length_set, hlength, hothers, hbirth, rfl, rfl, .inl ⟨rfl, rfl⟩, ?_, fun j hj => ?_,
    more, rfl, .dies ?_ hfd hclosed⟩
  · show (s.client i).SamePeer ((s.setClient i (s.client i).finalized).client i)
    rw [hself]
    exact ⟨rfl, rfl, rfl, rfl⟩
  · exact ⟨(s.client j).responseStream, Server.client_setClient_of_ne s hj.symm _⟩
  · exact congrArg Client.dead hself

/-- The end of a client closes the descriptor of its connection. -/
theorem finalizeClient_visited (hi : i < s.clients.elements.length) :
    Visited i s (finalizeClient i s) := by
  unfold finalizeClient
  by_cases hconnection : acceptingSocketIsConnection (s.client i).acceptingSocket = true
  · have hindex : pollIndex s i = acceptingSockets + i := by rw [pollIndex, if_pos hconnection]
    obtain ⟨hfd, hbirth, more, hmore, hclosed⟩ := pollFinalize_closes (acceptingSockets + i) s
    obtain ⟨polls, effects, heq, hlength, hothers⟩ := pollFinalize_frame (acceptingSockets + i) s
    rw [if_pos hconnection, hindex, clientFinalize_eq]
    rw [heq] at hfd hbirth hmore ⊢
    obtain rfl : effects = s.effects ++ more := hmore
    refine Visited.finalized hi _ _ hlength hothers hbirth ?_ ?_
    · rw [if_pos hconnection]
      exact hfd
    · rw [if_pos hconnection]
      exact hclosed
  · rw [if_neg hconnection, clientFinalize_eq]
    have hfd : (s.ownPoll i).fd = if acceptingSocketIsConnection (s.client i).acceptingSocket then none
        else (s.ownPoll i).fd := (if_neg hconnection).symm
    have hclosed : closedIn [] = if acceptingSocketIsConnection (s.client i).acceptingSocket then
        (s.ownPoll i).closing else [] := (if_neg hconnection).symm
    have hothers : ∀ k, k ≠ acceptingSockets + i → s.polls.elements.getD k .zero = s.poll k :=
      fun _ _ => rfl
    have hkept := fun stream owner => Visited.finalized hi stream owner rfl hothers rfl hfd hclosed
    simp only [List.append_nil] at hkept
    exact hkept _ _

/-! ## Rounds -/

variable {v : Visit}

theorem roundFirst_visited (now : ℤ) :
    (roundFirst i now v).Keeps fun w => Visited i v.server w.server := by
  unfold roundFirst
  by_cases hfirst : v.first = true
  · rw [if_pos hfirst]
    dsimp only
    split_ifs
    · exact Visited.refl i v.server
    · rcases checkTimeouts v.server i now none with e | remaining
      · exact Visited.refl i v.server
      · exact Visited.refl i v.server
  · rw [if_neg hfirst]
    exact Visited.refl i v.server

theorem assertAll_keeps {P : Visit → Prop} (checks : List (Bool × String)) (hv : P v) :
    (assertAll checks v).Keeps P := by
  induction checks with
  | nil => exact hv
  | cons check checks ih =>
    rw [assertAll]
    split_ifs
    · exact ih
    · exact hv

theorem roundReceive_visited (hi : i < v.server.clients.elements.length) (now : ℤ)
    (answers : ReceiveTrafficAnswers) :
    (roundReceive i now answers v).Keeps fun w => Visited i v.server w.server := by
  unfold roundReceive
  split_ifs
  · refine (serverReceiveTraffic_serves now answers).andThen (fun _ w hw => ?_)
      fun _ hw => hw.visited
    split_ifs
    · refine (assertAll_keeps (P := fun w => Serves i v.server w.server) _ hw).andThen
        (fun _ w hw => ?_) fun _ hw => hw.visited
      exact hw.visited.trans (finalizeClient_visited (by rw [hw.length]; exact hi))
    · exact hw.visited
  · exact Visited.refl i v.server

theorem roundParse_visited (now : ℤ) (answers : ProcessAnswers) (shutdown : ShutdownAnswers) :
    (roundParse i now answers shutdown v).Keeps fun w => Visited i v.server w.server := by
  unfold roundParse
  split_ifs
  · refine (Serves.onServer (v := { v with doneSomething := true }) (.refl i v.server)
      (serverProcessTraffic_serves now answers)).andThen (fun _ w hw => ?_) fun _ hw => hw.visited
    dsimp only
    split_ifs
    · refine (Serves.onServer hw (Serves.onClient ?_)).mono fun _ hw => hw.visited
      exact (cryptographyFinalize_same shutdown).mono (fun _ _ h => h.toSameIdentity)
        fun _ _ h => h.toSameIdentity
    · exact hw.visited
  · exact Visited.refl i v.server

theorem roundSend_visited (hi : i < v.server.clients.elements.length) (now : ℤ)
    (answers : SendAnswers) :
    (roundSend i now answers v).Keeps fun w => Visited i v.server w.server := by
  unfold roundSend
  split_ifs
  · refine (serverSendTraffic_serves now answers).andThen (fun _ w hw => ?_) fun _ hw => hw.visited
    split_ifs
    · refine (assertAll_keeps (P := fun w => Serves i v.server w.server) _ hw).andThen
        (fun _ w hw => ?_) fun _ hw => hw.visited
      exact hw.visited.trans (finalizeClient_visited (by rw [hw.length]; exact hi))
    · exact hw.visited
  · exact Visited.refl i v.server

theorem roundBlocks_visited (hi : i < v.server.clients.elements.length) (now : ℤ)
    (answers : RoundAnswers) :
    (roundBlocks i now answers v).Keeps fun w => Visited i v.server w.server := by
  unfold roundBlocks
  refine (roundFirst_visited now).andThen (fun _ w hw => ?_) fun _ => id
  refine ((roundReceive_visited (by rw [hw.length]; exact hi) now answers.receive).mono fun _ =>
    hw.trans).andThen (fun finalized w hw => ?_) fun _ => id
  split_ifs
  · exact hw
  refine ((roundParse_visited now answers.process answers.shutdown).mono fun _ =>
    hw.trans).andThen (fun _ w hw => ?_) fun _ => id
  exact (roundSend_visited (by rw [hw.length]; exact hi) now answers.send).mono fun _ => hw.trans

theorem serverProcessClientRoundRecovery_identity (fixed : ℕ) (answers : RecoveryAnswers)
    (client : Client) :
    (serverProcessClientRoundRecovery fixed answers client).Keeps fun d => client.SameIdentity d := by
  unfold serverProcessClientRoundRecovery
  refine (Outcome.keeps_mapState (Q := fun d => client.SameIdentity d) _ fun queue => ?_).andThen
    (fun r d hd => ?_) fun _ => id
  · exact ⟨rfl, rfl, rfl, rfl, rfl⟩
  set first : Client := if d.responseCount = 0 then { d with response := r.1 } else d with hdef
  have hfirst : client.SameIdentity first := by
    rw [hdef]
    split_ifs
    · exact hd.trans ⟨rfl, rfl, rfl, rfl, rfl⟩
    · exact hd
  have hencrypt : (cryptographyEncrypt answers.encrypt r.1 first).Keeps fun d =>
      client.SameIdentity d :=
    (cryptographyEncrypt_same _ _).mono (fun _ _ h => hfirst.trans h.1.toSameIdentity)
      fun _ _ h => hfirst.trans h.toSameIdentity
  refine Outcome.Keeps.andThen hencrypt (fun _ d hd => ?_) fun _ => id
  have hcounted : client.SameIdentity { d with responseCount := d.responseCount + 1 } :=
    hd.trans ⟨rfl, rfl, rfl, rfl, rfl⟩
  exact (cryptographyFinalize_same answers.finalize).mono
    (fun _ _ h => hcounted.trans h.toSameIdentity) fun _ _ h => hcounted.trans h.toSameIdentity

theorem serverProcessClientRound_visited (hi : i < v.server.clients.elements.length) (now : ℤ)
    (answers : RoundAnswers) :
    (serverProcessClientRound i now answers v).Keeps fun w => Visited i v.server w.server := by
  unfold serverProcessClientRound
  refine (roundBlocks_visited hi now answers).handle (fun _ _ hw => hw) fun e w hw => ?_
  dsimp only
  split_ifs
  · refine (Serves.onServer (s := w.server) (.emit rfl) (Serves.onClient
      (serverProcessClientRoundRecovery_identity _ answers.recovery _))).mono fun _ hu => ?_
    exact hw.trans hu.visited
  · exact hw

/-! ## Whole visits -/

theorem failureActions_visited (hi : i < s.clients.elements.length) (taken : ℕ) (e : ExError) :
    (failureActions i taken e s).Keeps fun t => Visited i s t := by
  have hfixed : Visited i s (sendFixed i taken e s) := by
    unfold sendFixed
    dsimp only
    split_ifs
    · exact (Serves.emit rfl).visited
    · exact (Serves.emit rfl).visited
    · exact .refl i s
  have hend : ∀ (p : Prop) [Decidable p] (t : Server), Visited i s t →
      Visited i s (if p then finalizeClient i t else t) := by
    intro p _ t ht
    split_ifs
    · exact ht.trans (finalizeClient_visited (by rw [ht.length]; exact hi))
    · exact ht
  have hprint : ∀ (p : Prop) [Decidable p] (t : Server), Visited i s t →
      Visited i s (if p then t.emit (.errorPrinted e.error) else t) := by
    intro p _ t ht
    split_ifs
    · exact ht.trans (Serves.emit rfl).visited
    · exact ht
  have hdone := hprint (e.has partialEefLog = true) _ (hend (e.has partialEefClose = true) _
    (hend (e.has partialEefShutdown = true) _ hfixed))
  unfold failureActions
  dsimp only
  split_ifs at hdone ⊢ <;> exact hdone

/-- What is polled for changes, and nothing else. -/
theorem prepareToWait_fst (i : ℕ) (now remaining : ℤ) (s : Server) :
    (prepareToWait i now remaining s).1
      = if acceptingSocketIsConnection (s.client i).acceptingSocket then
        s.setPoll (acceptingSockets + i) { s.ownPoll i with events := waitEvents i s } else s := by
  unfold prepareToWait pollIndex
  by_cases hconnection : acceptingSocketIsConnection (s.client i).acceptingSocket = true
  · simp only [if_pos hconnection]
    split <;> rfl
  · simp only [if_neg hconnection]
    split <;> rfl

theorem prepareToWait_visited (now remaining : ℤ) :
    Visited i s (prepareToWait i now remaining s).1 := by
  rw [prepareToWait_fst]
  split_ifs
  · exact .setPoll rfl rfl
  · exact .refl i s

theorem serverProcessClientLoop_visited (now remaining : ℤ) (answers : VisitAnswers) (fuel k : ℕ)
    (hi : i < v.server.clients.elements.length) :
    (serverProcessClientLoop i now remaining answers fuel k v).Keeps
      fun t => Visited i v.server t := by
  induction fuel generalizing k v with
  | zero => exact trivial
  | succ fuel ih =>
    rw [serverProcessClientLoop]
    have hround := serverProcessClientRound_visited (v := { v with doneSomething := false }) hi now
      (answers.rounds k)
    refine hround.handle (fun _ w hw => ?_) fun e w hw => ?_
    · have hlt : i < w.server.clients.elements.length := by
        rw [hw.length]
        exact hi
      split_ifs
      · exact (ih (k + 1) hlt).mono fun _ => hw.trans
      · exact hw.trans (prepareToWait_visited now remaining)
    · have hlt : i < w.server.clients.elements.length := by
        rw [hw.length]
        exact hi
      exact ((failureActions_visited hlt answers.taken e).mono fun _ => hw.trans).andThen
        (fun _ _ => id) fun _ => id

/-- What a visit may change, whatever happens in it. -/
theorem serverProcessClient_visited (hi : i < s.clients.elements.length) (now remaining : ℤ)
    (answers : VisitAnswers) (fuel : ℕ) :
    (serverProcessClient i now remaining answers fuel s).Keeps fun t => Visited i s t :=
  serverProcessClientLoop_visited (v := startVisit i s) now remaining answers fuel 0 hi

/-! ## Rounds of a visit -/

/-- The loop that begins round `k` with `v` comes to begin round `l` with `w`. -/
inductive LoopReaches (i : ℕ) (now : ℤ) (answers : VisitAnswers) (k : ℕ) (v : Visit) :
    ℕ → Visit → Prop where
  | start : LoopReaches i now answers k v k v
  | round {l : ℕ} {u w : Visit} (before : LoopReaches i now answers k v l u)
      (returns : serverProcessClientRound i now (answers.rounds l) { u with doneSomething := false }
        = .ok () w) (doneSomething : w.doneSomething = true) :
      LoopReaches i now answers k v (l + 1) w

/-- What every round preserves holds at the beginning of every round. -/
theorem LoopReaches.invariant {now : ℤ} {answers : VisitAnswers} {k l : ℕ} {v w : Visit}
    {P : Visit → Prop} (h : LoopReaches i now answers k v l w) (hv : P v)
    (hround : ∀ m u, P u → (serverProcessClientRound i now (answers.rounds m)
      { u with doneSomething := false }).Meets True (fun _ w => P w) fun _ _ => True) : P w := by
  induction h with
  | start => exact hv
  | @round m u w before returns doneSomething ih =>
    have hw := hround m u ih
    rw [returns] at hw
    exact hw

end Twinkleshine
