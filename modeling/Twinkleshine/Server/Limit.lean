import Twinkleshine.Server.Failures
import Twinkleshine.Server.Quiet

/-!
# The limit of clients

`server_accept_traffic` compares the size of the table with `MAX_CLIENTS` once, before it serves the
first listening socket. `LimitKnown` is the condition under which that is enough: whoever is to be
refused for the limit comes in a pass that began at the limit.
-/

namespace Twinkleshine

open Library

/-! ## Offers -/

/-- A client would be made at a listening socket, if the limit of clients does not refuse it: the socket
is ready, nothing else refuses, and a connection is accepted, or a request of someone unknown
received. -/
def Offers (load : ServerLoad) (answers : SocketAnswers) (index : ℕ) (s : Server) : Prop :=
  (s.poll index).revents.pollIn = true ∧ load.maxMemory = false ∧ load.maxUtilization = false ∧
    if acceptingSocketIsConnection index then
      answers.connection.accepted.isSome = true ∧ answers.connection.fcntl = true
    else s.shortRequestMessageOwner = none ∧
      ∃ bytes address, answers.message.received = .ok (bytes, address) ∧
        findGuppy address s.clients.elements = none ∧
        guppyScheme.length ≤ (bytes.take 2048).length ∧
        (memcpy s.shortRequestMessage 0 (bytes.take 2048)).take guppyScheme.length = guppyScheme

variable {s t : Server}

theorem ServerLoad.admits_iff {load : ServerLoad} : load.refuses = false ↔
    load.maxClients = false ∧ load.maxMemory = false ∧ load.maxUtilization = false := by
  simp [ServerLoad.refuses, and_assoc]

/-- The service of a listening socket leaves the clients as they are, or one that was offered, and was
not refused, is appended. -/
theorem SocketServed.clients_eq {index : ℕ} {load : ServerLoad} {now : ℤ} {answers : SocketAnswers}
    (h : SocketServed index load now answers s t) :
    t.clients.elements = s.clients.elements ∨
      load.maxClients = false ∧ Offers load answers index s ∧
        ∃ client, t.clients.elements = s.clients.elements ++ [client] := by
  rcases h with ⟨rfl, -⟩ | ⟨hasked, served⟩ | ⟨hready, hmessage, hfree, served⟩
  · exact .inl rfl
  · obtain ⟨-, hready, hconnection⟩ := Server.acceptsAt_iff.mp hasked
    rcases served with ⟨-, same⟩ | ⟨-, -, same⟩ | ⟨-, -, -, -, same⟩ |
      ⟨haccepted, hfcntl, hadmits, -, hadmitted, -⟩
    · exact .inl same.clients
    · exact .inl same.clients
    · exact .inl same.clients
    · obtain ⟨hclients, hmemory, hutilization⟩ := ServerLoad.admits_iff.mp hadmits
      refine .inr ⟨hclients, ⟨hready, hmemory, hutilization, ?_⟩, _, hadmitted.clients⟩
      rw [if_pos hconnection, haccepted]
      exact ⟨rfl, hfcntl⟩
  · rcases served with ⟨rfl⟩ | ⟨same⟩ | ⟨-, -, same, -⟩ |
      ⟨hreceived, hunknown, hrequest, hadmits, hadmitted, -⟩
    · exact .inl rfl
    · exact .inl same.clients
    · exact .inl (congrArg Buffer.elements same.clients)
    · obtain ⟨hclients, hmemory, hutilization⟩ := ServerLoad.admits_iff.mp hadmits
      refine .inr ⟨hclients, ⟨hready, hmemory, hutilization, ?_⟩, _, hadmitted.clients⟩
      rw [if_neg (by rw [hmessage]; exact Bool.false_ne_true)]
      exact ⟨hfree, _, _, hreceived, hunknown, hrequest⟩

/-! ## Runs -/

/-- When a client is offered to a full table, the pass began with a full table. -/
def LimitKnown : Phase × Server → ServerInput → Prop
  | (.accepting _ load (index :: _), s), .accept answers =>
    maxClients ≤ s.clients.elements.length → Offers load answers index s → load.maxClients = true
  | _, _ => True

/-- Under the condition a full table stays as it is. -/
theorem SocketServed.of_full {index : ℕ} {load : ServerLoad} {now : ℤ} {answers : SocketAnswers}
    (h : SocketServed index load now answers s t)
    (hknown : maxClients ≤ s.clients.elements.length → Offers load answers index s →
      load.maxClients = true)
    (hfull : maxClients ≤ s.clients.elements.length) : t.clients.elements = s.clients.elements := by
  rcases h.clients_eq with hsame | ⟨hclients, hoffers, -⟩
  · exact hsame
  · rw [hknown hfull hoffers] at hclients
    cases hclients

theorem ServerStep.length_le {state state' : Phase × Server} {input : ServerInput}
    (h : ServerStep state input state') (hs : Tabled state)
    (hle : state.2.clients.elements.length ≤ maxClients) (hknown : LimitKnown state input) :
    state'.2.clients.elements.length ≤ maxClients := by
  obtain ⟨hpaired, hplaces⟩ := hs
  cases h with
  | poll => exact hle
  | @accept s t now load index rest answers returns =>
    have hserved := (serverAcceptSocket_cases hpaired.size index load now answers).of_eq_ok returns
    by_cases hfull : maxClients ≤ s.clients.elements.length
    · exact (congrArg List.length (hserved.of_full hknown hfull)).trans_le hle
    · rcases hserved.clients_eq with hsame | ⟨-, -, client, happend⟩
      · exact (congrArg List.length hsame).trans_le hle
      · dsimp only at happend ⊢
        rw [happend, List.length_append, List.length_singleton]
        omega
  | shuffle => exact (length_clientsShuffle _ _).trans_le hle
  | visit returns =>
    have hvisited := (serverProcessClient_visited (hplaces _ List.mem_cons_self) _ _ _ _).of_eq_ok
      returns
    exact hvisited.length.trans_le hle
  | remove =>
    rw [(clientsRemoveFinalized_compacted hpaired).clients]
    exact (List.length_filter_le _ _).trans hle

/-- In every run in which nobody is offered to a full table, unless the pass began with it, the table
never grows beyond the limit, and a full table does not change while listening sockets are served. -/
theorem serverRun_maxClients {polls : Buffer Poll} (hpolls : polls.elements.length = acceptingSockets)
    {inputs : List ServerInput} {phase : Phase} {s : Server}
    (hrun : Runs (StepsWhere LimitKnown ServerStep) (startState polls) inputs (phase, s)) :
    s.clients.elements.length ≤ maxClients ∧
      ∀ now load index rest answers t, phase = .accepting now load (index :: rest) →
        LimitKnown (phase, s) (.accept answers) →
        serverAcceptSocket load now answers index s = .ok () t →
        s.clients.elements.length = maxClients → t.clients.elements = s.clients.elements := by
  obtain ⟨htabled, hle⟩ := serverRun_invariant hpolls
    (P := fun state => state.2.clients.elements.length ≤ maxClients) (Nat.zero_le _)
    (fun _ _ _ hs hle hknown h => h.length_le hs hle hknown) hrun
  refine ⟨hle, fun now load index rest answers t hphase hknown hreturns hfull => ?_⟩
  subst hphase
  exact ((serverAcceptSocket_cases htabled.paired.size _ _ _ _).of_eq_ok hreturns).of_full hknown
    hfull.ge

/-! ## A server that fills up

Connections come and send nothing. One is accepted in each of 255 passes, and two more in the next.
-/

/-- `poll()` says that these many listening sockets are ready, and nothing else. -/
def readySockets (m k : ℕ) : PollEvents := if k < m then ⟨true, false, false, false⟩ else .none

/-- A connection is accepted where one is, and nothing is refused. -/
def acceptedAnswers : SocketAnswers := ⟨oneAccepted, ⟨.error "", true, none, none⟩⟩

/-- Nobody sends anything. -/
def quietVisit : VisitAnswers := ⟨fun _ => quietRound, 0⟩

/-- All clients are connections that have sent nothing. -/
structure Crowd (n : ℕ) (s : Server) : Prop where
  length : s.clients.elements.length = n
  idle : ∀ i < n, (s.client i).Idle 0
  free : s.shortResponseStreamOwner = none

/-- Nothing bad happened on any socket. -/
def Calm (s : Server) : Prop :=
  ∀ k, (s.poll k).revents.pollErr = false ∧ (s.poll k).revents.pollHup = false

theorem Crowd.idles {n i : ℕ} (h : Crowd n s) (hcalm : Calm s) (hi : i < n) : Idles i 0 s :=
  ⟨h.length.symm ▸ hi, h.idle i hi, Server.owns_of_none h.free i, (hcalm _).1, (hcalm _).2⟩

theorem poll_pollAll (revents : ℕ → PollEvents) {k : ℕ} (hk : k < s.polls.elements.length) :
    (pollAll revents s).poll k = { s.poll k with revents := revents k } := by
  simp [pollAll, Server.poll, hk]

theorem Calm.pollAll (s : Server) (m : ℕ) : Calm (pollAll (readySockets m) s) := by
  intro k
  by_cases hk : k < s.polls.elements.length
  · rw [poll_pollAll _ hk]
    dsimp only [readySockets]
    split_ifs <;> exact ⟨rfl, rfl⟩
  · have hzero : (Twinkleshine.pollAll (readySockets m) s).poll k = .zero := by
      simp [Twinkleshine.pollAll, Server.poll, hk]
    rw [hzero]
    exact ⟨rfl, rfl⟩

/-- The client of a connection that is accepted on a plain socket. -/
def acceptedClient (index births : ℕ) : Client :=
  { newClient index ⟨false, 1, 2⟩ 0 births with cryptographyState := .operational }

/-- A connection is accepted: both tables get an entry. -/
theorem serverAcceptSocket_accepted {index : ℕ} (hcalm : Calm s)
    (hsize : s.polls.elements.length = s.clients.elements.length + acceptingSockets)
    (hn : s.clients.elements.length ≤ maxClients) (hindex : index < 2)
    (hready : (s.poll index).revents.pollIn = true) :
    ∃ polls clients, serverAcceptSocket ⟨false, false, false⟩ 0 acceptedAnswers index s
        = .ok () { s with
          polls := polls, births := s.births + 1, clients := clients
          shortRequestMessageOwner := s.shortRequestMessageOwner.map (·.moveTo clients.p)
          shortResponseStreamOwner := s.shortResponseStreamOwner.map (·.moveTo clients.p) } ∧
      polls.elements = s.polls.elements ++ [⟨some 20, .none, .none, s.births⟩] ∧
      clients.elements = s.clients.elements ++ [acceptedClient index s.births] := by
  have hmax : maxClients = 256 := rfl
  have hsockets : acceptingSockets = 18 := rfl
  set poll : Poll := ⟨some 20, .none, .none, s.births⟩
  set client := acceptedClient index s.births
  -- both tables have room
  obtain ⟨polls, hpollsAppend, hpolls⟩ : ∃ polls, genericBufferAppend (some 1) s.polls [poll]
      = .ok () polls ∧ polls.elements = s.polls.elements ++ [poll] :=
    genericBufferAppend_granted 1 (by rw [List.length_singleton]; omega)
  obtain ⟨clients, hclientsAppend, hclients⟩ : ∃ clients, genericBufferAppend (some 2) s.clients
      [client] = .ok () clients ∧ clients.elements = s.clients.elements ++ [client] :=
    genericBufferAppend_granted 2 (by rw [List.length_singleton]; omega)
  refine ⟨polls, clients, ?_, hpolls, hclients⟩
  -- the client needs no encryption
  have hplain : ¬ (acceptingSocketIsHttps index || acceptingSocketIsGemini index) = true := by
    simp only [acceptingSocketIsHttps, acceptingSocketIsGemini, Bool.or_eq_true, Bool.and_eq_true,
      decide_eq_true_eq]
    omega
  have hconnection : acceptingSocketIsConnection index = true := by
    simp only [acceptingSocketIsConnection, decide_eq_true_eq]
    omega
  have hmade : initializeClient index oneAccepted.cryptography
      (newClient index ⟨false, 1, 2⟩ 0 s.births) = .ok () client := by
    rw [initializeClient, if_neg hplain]
    rfl
  -- the two appends
  set counted : Server := { s with births := s.births + 1 }
  have happendPoll : pollsAppend (some 1) poll counted = .ok () { counted with polls := polls } := by
    rw [pollsAppend, show counted.polls = s.polls from rfl, hpollsAppend]
    rfl
  have happendClient : clientsAppend (some 2) client { counted with polls := polls }
      = .ok () { counted with
        polls := polls, clients := clients
        shortRequestMessageOwner := s.shortRequestMessageOwner.map (·.moveTo clients.p)
        shortResponseStreamOwner := s.shortResponseStreamOwner.map (·.moveTo clients.p) } := by
    rw [clientsAppend]
    dsimp only [counted]
    rw [hclientsAppend]
    rfl
  -- every answer is the one that lets the client in
  rw [serverAcceptSocket, (hcalm index).1, (hcalm index).2, if_neg (by decide), if_neg (not_not.mpr hready),
    if_pos hconnection]
  show (initializeClient index oneAccepted.cryptography
    (newClient index ⟨false, 1, 2⟩ 0 s.births)).handle _ _ = _
  rw [hmade, Outcome.handle_ok]
  show (pollsAppend (some 1) poll counted).handle _ _ = _
  rw [happendPoll, Outcome.handle_ok]
  show (clientsAppend (some 2) client { counted with polls := polls }).handle _ _ = _
  rw [happendClient]
  rfl

/-- A connection that sends nothing is accepted. -/
theorem Crowd.accept {n index : ℕ} (h : Crowd n s) (hcalm : Calm s)
    (hsize : s.polls.elements.length = s.clients.elements.length + acceptingSockets)
    (hn : n ≤ maxClients) (hindex : index < 2) (hready : (s.poll index).revents.pollIn = true) :
    ∃ t, serverAcceptSocket ⟨false, false, false⟩ 0 acceptedAnswers index s = .ok () t ∧
      Crowd (n + 1) t ∧ Calm t ∧ ∀ k < acceptingSockets, t.poll k = s.poll k := by
  have hlength := h.length
  obtain ⟨polls, clients, hreturns, hpolls, hclients⟩ :=
    serverAcceptSocket_accepted hcalm hsize (hlength ▸ hn) hindex hready
  set t : Server := { s with
    polls := polls, births := s.births + 1, clients := clients
    shortRequestMessageOwner := s.shortRequestMessageOwner.map (·.moveTo clients.p)
    shortResponseStreamOwner := s.shortResponseStreamOwner.map (·.moveTo clients.p) } with ht
  have hconnection : acceptingSocketIsConnection index = true := by
    simp only [acceptingSocketIsConnection, decide_eq_true_eq]
    omega
  refine ⟨t, hreturns, ⟨?_, fun i hi => ?_, ?_⟩, fun k => ?_, fun k hk => ?_⟩
  · rw [ht, hclients, List.length_append, List.length_singleton, hlength]
  · -- those who were there are idle, and so is the new client
    by_cases hold : i < s.clients.elements.length
    · have hsame : t.client i = s.client i := by
        rw [Server.client, ht, hclients, List.getD_append _ _ _ _ hold]
        rfl
      rw [hsame]
      exact h.idle i (by omega)
    · have hnew : t.client i = acceptedClient index s.births := by
        rw [Server.client, ht, hclients, List.getD_append_right _ _ _ _ (Nat.not_lt.mp hold),
          show i - s.clients.elements.length = 0 by omega]
        rfl
      rw [hnew]
      exact ⟨rfl, hconnection, rfl, rfl, rfl, Ring.zero_valid, rfl, rfl, show (0 : ℤ) ≤ 0 + 600 by omega⟩
  · rw [ht, h.free]
    rfl
  · -- nothing is known of the new socket
    by_cases hold : k < s.polls.elements.length
    · have hsame : t.poll k = s.poll k := by
        rw [Server.poll, ht, hpolls, List.getD_append _ _ _ _ hold]
        rfl
      rw [hsame]
      exact hcalm k
    · have hnew : (t.poll k).revents = .none := by
        rw [Server.poll, ht, hpolls, List.getD_append_right _ _ _ _ (Nat.not_lt.mp hold)]
        rcases k - s.polls.elements.length with _ | l
        · rfl
        · rfl
      rw [hnew]
      exact ⟨rfl, rfl⟩
  · rw [Server.poll, ht, hpolls, List.getD_append _ _ _ _ (by omega)]
    rfl

/-- A connection that sends nothing is visited. -/
theorem Crowd.visit {n i : ℕ} (h : Crowd n s) (hcalm : Calm s) (hi : i < n) (remaining : ℤ) :
    ∃ remaining' t, serverProcessClient i 0 remaining quietVisit 2 s = .ok remaining' t ∧
      Crowd n t ∧ Calm t := by
  have hidles := h.idles hcalm hi
  obtain ⟨r, remaining', hvalid, hsize, heq⟩ : ∃ (r : Ring) (remaining' : ℤ), r.Valid ∧ r.size = 0 ∧
      serverProcessClient i 0 remaining quietVisit 2 s = .ok remaining' _ :=
    hidles.visit remaining rfl rfl
  refine ⟨remaining', _, heq, ⟨?_, fun j hj => ?_, h.free⟩, fun k => ?_⟩
  · exact List.length_set.trans h.length
  · show ((s.setClient i { s.client i with requestStream := r }).client j).Idle 0
    by_cases hij : i = j
    · rw [← hij, Server.client_setClient hidles.lt]
      exact hidles.client.setStream hvalid hsize
    · rw [Server.client_setClient_of_ne s hij]
      exact h.idle j hj
  · set t := s.setClient i { s.client i with requestStream := r } with ht
    have hpoll : ∀ l, t.poll l = s.poll l := fun _ => rfl
    by_cases hk : acceptingSockets + i = k
    · by_cases hlt : k < t.polls.elements.length
      · rw [hk, Server.poll_setPoll hlt]
        exact hcalm _
      · rw [hk, Server.setPoll_of_length_le (Nat.not_lt.mp hlt), hpoll]
        exact hcalm k
    · rw [Server.poll_setPoll_of_ne t hk, hpoll]
      exact hcalm k

/-- All of them are visited. -/
theorem Crowd.visits {n : ℕ} (places : List ℕ) (h : Crowd n s) (hcalm : Calm s)
    (hplaces : ∀ place ∈ places, s.visited place < n) (remaining : ℤ) :
    ∃ inputs remaining' t, Runs (StepsWhere LimitKnown ServerStep) (.visiting 0 remaining places, s) inputs
      (.visiting 0 remaining' [], t) ∧ Crowd n t := by
  induction places generalizing s remaining with
  | nil => exact ⟨[], remaining, s, .nil _, h⟩
  | cons place places ih =>
    have hlt := hplaces place List.mem_cons_self
    obtain ⟨remaining', t, hvisit, hcrowd, hcalm'⟩ := h.visit hcalm hlt remaining
    have hvisited := (serverProcessClient_visited (h.length.symm ▸ hlt) _ _ _ _).of_eq_ok hvisit
    obtain ⟨inputs, remaining'', u, hrun, hcrowd'⟩ := ih hcrowd hcalm' (fun other hother => by
      rw [hvisited.visited_eq]
      exact hplaces other (List.mem_cons_of_mem _ hother)) remaining'
    exact ⟨_, remaining'', u, .cons ⟨trivial, .visit hvisit⟩ hrun, hcrowd'⟩

/-- Listening sockets that are not ready are skipped. -/
theorem Calm.skip (hcalm : Calm s) (now : ℤ) (load : ServerLoad) (indices : List ℕ)
    (hready : ∀ index ∈ indices, (s.poll index).revents.pollIn = false) :
    ∃ inputs, Runs (StepsWhere LimitKnown ServerStep) (.accepting now load indices, s) inputs
      (.accepting now load [], s) := by
  induction indices with
  | nil => exact ⟨[], .nil _⟩
  | cons index indices ih =>
    obtain ⟨inputs, hrun⟩ := ih fun other hother => hready other (List.mem_cons_of_mem _ hother)
    have hskip : serverAcceptSocket load now acceptedAnswers index s = .ok () s := by
      rw [serverAcceptSocket, (hcalm index).1, (hcalm index).2, hready index List.mem_cons_self,
        if_neg (by decide), if_pos (by decide)]
    have hknown : LimitKnown (.accepting now load (index :: indices), s) (.accept acceptedAnswers) :=
      fun _ hoffers => absurd (hready index List.mem_cons_self) (by rw [hoffers.1]; decide)
    exact ⟨_, .cons ⟨hknown, .accept hskip⟩ hrun⟩

/-- Nobody is removed. -/
theorem Crowd.remove {n : ℕ} (h : Crowd n s) (hs : s.Paired) : Crowd n (clientsRemoveFinalized s) := by
  have hall : ∀ client ∈ s.clients.elements, client.dead = false := by
    intro client hclient
    obtain ⟨i, hi, rfl⟩ := List.getElem_of_mem hclient
    have hlive := (h.idle i (h.length ▸ hi)).live
    rwa [Server.client, List.getD_eq_getElem _ _ hi] at hlive
  have hsame : (clientsRemoveFinalized s).clients.elements = s.clients.elements := by
    rw [(clientsRemoveFinalized_compacted hs).clients]
    exact List.filter_eq_self.mpr fun client hclient => by rw [hall client hclient]; rfl
  refine ⟨by rw [hsame, h.length], fun i hi => ?_, ?_⟩
  · rw [Server.client, hsame]
    exact h.idle i hi
  · have hnone : (removeFinalized s.clients.p 0 0 s.clients.elements
        (s.polls.elements.drop acceptingSockets) none).2.2 = none := by
      refine removeFinalized_owner_of_not _ _ _ ?_
      intro _ _ _ _ hsome
      cases hsome
    show (removeFinalized s.clients.p 0 0 s.clients.elements
      (s.polls.elements.drop acceptingSockets) s.shortResponseStreamOwner).2.2 = none
    rw [h.free]
    exact hnone

/-- A pass begins: the first listening sockets are ready. -/
theorem Crowd.poll {n : ℕ} (h : Crowd n s) (hs : s.Paired) (hn : n < maxClients) (remaining : ℤ)
    (m : ℕ) : ServerStep (.waiting remaining, s) (.poll (readySockets m) 0 false false)
      (.accepting 0 ⟨false, false, false⟩ (List.range acceptingSockets),
        pollAll (readySockets m) s) ∧ Crowd n (pollAll (readySockets m) s) ∧
      ∀ k < acceptingSockets, ((pollAll (readySockets m) s).poll k).revents.pollIn = decide (k < m) := by
  have hload : s.load false false = ⟨false, false, false⟩ := by
    simp [Server.load, h.length, hn]
  refine ⟨hload ▸ .poll s remaining _ 0 false false,
    ⟨h.length, h.idle, h.free⟩, fun k hk => ?_⟩
  have hsize := hs.size
  rw [poll_pollAll _ (by omega)]
  by_cases hkm : k < m
  · simp [readySockets, hkm]
  · simp [readySockets, hkm, PollEvents.none]

/-- A pass in which one connection is accepted. -/
theorem Crowd.grow {n : ℕ} (h : Crowd n s) (hs : s.Paired) (hn : n < maxClients) (remaining : ℤ) :
    ∃ inputs remaining' t, Runs (StepsWhere LimitKnown ServerStep) (.waiting remaining, s) inputs
      (.waiting remaining', t) ∧ Crowd (n + 1) t ∧ t.Paired := by
  obtain ⟨hpoll, hcrowd, hready⟩ := h.poll hs hn remaining 1
  have hpaired := pollAll_paired (readySockets 1) hs
  have hcalm := Calm.pollAll s 1
  set s₁ := pollAll (readySockets 1) s
  have hrange : List.range acceptingSockets = 0 :: (List.range 17).map (· + 1) := rfl
  rw [hrange] at hpoll
  obtain ⟨s₂, haccept, hcrowd₂, hcalm₂, hpolls⟩ := hcrowd.accept hcalm hpaired.size hn.le
    (by decide) (hready 0 (by decide))
  have hpaired₂ := ((serverAcceptSocket_cases hpaired.size _ _ _ _).of_eq_ok haccept).paired hpaired
  obtain ⟨skips, hskip⟩ := hcalm₂.skip 0 ⟨false, false, false⟩ ((List.range 17).map (· + 1))
    fun index hindex => by
      obtain ⟨k, hk, rfl⟩ := List.mem_map.mp hindex
      have hlt : k + 1 < acceptingSockets := Nat.succ_lt_succ (List.mem_range.mp hk)
      rw [hpolls _ hlt, hready _ hlt]
      exact decide_eq_false (by omega)
  have hshuffled : Crowd (n + 1) (clientsShuffle id s₂) := by
    refine ⟨(length_clientsShuffle id s₂).trans hcrowd₂.length, fun i hi => ?_, hcrowd₂.free⟩
    obtain ⟨shuffleIndex, -, hclient⟩ := client_clientsShuffle id (hcrowd₂.length.symm ▸ hi)
    rw [hclient]
    obtain ⟨hlive, hconnection, hplain, hstate, hprogress, hvalid, hempty, houtput, htimeout⟩ :=
      hcrowd₂.idle i hi
    exact ⟨hlive, hconnection, hplain, hstate, hprogress, hvalid, hempty, houtput, htimeout⟩
  have hcalm₃ : Calm (clientsShuffle id s₂) := hcalm₂
  obtain ⟨visits, remaining', s₃, hvisits, hcrowd₃⟩ := hshuffled.visits
    (List.range s₂.clients.elements.length) hcalm₃ (fun place hplace => by
      rw [← hcrowd₂.length]
      exact visited_clientsShuffle_lt id (List.mem_range.mp hplace)) intMax
  have hvisiting : Tabled (.visiting 0 intMax (List.range s₂.clients.elements.length),
      clientsShuffle id s₂) :=
    ServerStep.tabled (.shuffle s₂ 0 ⟨false, false, false⟩ id) ⟨hpaired₂, trivial⟩
  have htabled : Tabled (.visiting 0 remaining' [], s₃) :=
    hvisits.invariant hvisiting fun _ _ _ ht hstep => hstep.2.tabled ht
  have hknown : LimitKnown (.accepting 0 ⟨false, false, false⟩ (0 :: (List.range 17).map (· + 1)), s₁)
      (.accept acceptedAnswers) :=
    fun hfull _ => absurd (hcrowd.length ▸ hfull) (Nat.not_le.mpr hn)
  refine ⟨_, remaining', clientsRemoveFinalized s₃, .cons ⟨trivial, hpoll⟩ (.cons ⟨hknown, .accept haccept⟩
    (hskip.append (.cons ⟨trivial, .shuffle s₂ 0 _ id⟩
      (hvisits.concat ⟨trivial, .remove s₃ 0 remaining'⟩)))), hcrowd₃.remove htabled.paired, ?_⟩
  exact (ServerStep.tabled (.remove s₃ 0 remaining') htabled).paired

/-- The listening sockets, waited for. -/
def listening : Buffer Poll :=
  ⟨1, List.replicate acceptingSockets ⟨some 3, ⟨true, false, false, false⟩, .none, 0⟩,
    acceptingSockets⟩

/-- Pass after pass a crowd gathers. -/
theorem startState_crowd {n : ℕ} (hn : n ≤ maxClients) : ∃ inputs remaining s,
    Runs (StepsWhere LimitKnown ServerStep) (startState listening) inputs (.waiting remaining, s) ∧
      Crowd n s ∧ s.Paired := by
  induction n with
  | zero =>
    refine ⟨[], intMax, .initial listening, .nil _, ⟨rfl, fun i hi => absurd hi (Nat.not_lt_zero i),
      rfl⟩, Server.initial_paired rfl⟩
  | succ n ih =>
    obtain ⟨inputs, remaining, s, hrun, hcrowd, hpaired⟩ := ih (by omega)
    obtain ⟨inputs', remaining', t, hgrow, hcrowd', hpaired'⟩ := hcrowd.grow hpaired (by omega)
      remaining
    exact ⟨inputs ++ inputs', remaining', t, hrun.append hgrow, hcrowd', hpaired'⟩

/-- A connection comes to a full table, and is refused: the clients stay. -/
theorem serverRun_maxClients_refused : ∃ inputs load rest s t,
    Runs (StepsWhere LimitKnown ServerStep) (startState listening) inputs (.accepting 0 load (0 :: rest), s) ∧
    s.clients.elements.length = maxClients ∧
    serverAcceptSocket load 0 acceptedAnswers 0 s = .ok () t ∧ t.births = s.births + 1 ∧
    (s.clients.elements.length ≤ maxClients ∧ t.clients.elements = s.clients.elements) := by
  obtain ⟨inputs, remaining, s, hrun, hcrowd, hpaired⟩ := startState_crowd (le_refl maxClients)
  have hload : s.load false false = ⟨true, false, false⟩ := by
    rw [Server.load, hcrowd.length]
    rfl
  have hrange : List.range acceptingSockets = 0 :: (List.range 17).map (· + 1) := rfl
  have hpoll := ServerStep.poll s remaining (readySockets 1) 0 false false
  rw [hload, hrange] at hpoll
  have hready : ((pollAll (readySockets 1) s).poll 0).revents = ⟨true, false, false, false⟩ := by
    have hsize := hpaired.size
    have hsockets : acceptingSockets = 18 := rfl
    rw [poll_pollAll _ (by omega)]
    rfl
  set s₁ := pollAll (readySockets 1) s
  have hrefused : serverAcceptSocket ⟨true, false, false⟩ 0 acceptedAnswers 0 s₁
      = .ok () (serverSendLowResourcesConnection 0 s₁.births none
        (serverLowResourcesResponse ⟨true, false, false⟩) { s₁ with births := s₁.births + 1 }) := by
    rw [serverAcceptSocket, hready]
    rfl
  have hfull : s₁.clients.elements.length = maxClients := hcrowd.length
  have hruns := hrun.concat ⟨trivial, hpoll⟩
  have hpolls : listening.elements.length = acceptingSockets := rfl
  obtain ⟨hle, hsame⟩ := serverRun_maxClients hpolls hruns
  exact ⟨_, _, _, s₁, _, hruns, hfull, hrefused, rfl, hle,
    hsame _ _ _ _ _ _ rfl (fun _ _ => rfl) hrefused hfull⟩

/-- Two connections that come in one pass exceed the limit. -/
theorem serverRun_maxClients_exceeded : ¬ ∀ (polls : Buffer Poll),
    polls.elements.length = acceptingSockets → ∀ inputs phase s,
      Runs ServerStep (startState polls) inputs (phase, s) →
        s.clients.elements.length ≤ maxClients := by
  intro hclaim
  have hmax : maxClients = 256 := rfl
  obtain ⟨inputs, remaining, s, hrun, hcrowd, hpaired⟩ := startState_crowd (n := 255) (by omega)
  obtain ⟨hpoll, hcrowd₁, hready⟩ := hcrowd.poll hpaired (by omega) remaining 2
  have hpaired₁ := pollAll_paired (readySockets 2) hpaired
  set s₁ := pollAll (readySockets 2) s
  obtain ⟨s₂, haccept₂, hcrowd₂, hcalm₂, hpolls⟩ := hcrowd₁.accept (Calm.pollAll s 2) hpaired₁.size
    (by omega) (by decide) (hready 0 (by decide))
  have hpaired₂ := ((serverAcceptSocket_cases hpaired₁.size _ _ _ _).of_eq_ok haccept₂).paired hpaired₁
  obtain ⟨s₃, haccept₃, hcrowd₃, -, -⟩ := hcrowd₂.accept hcalm₂ hpaired₂.size (by omega)
    (show 1 < 2 by decide) (by rw [hpolls 1 (by decide), hready 1 (by decide)]; rfl)
  have hrange : List.range acceptingSockets = 0 :: 1 :: (List.range 16).map (· + 2) := rfl
  rw [hrange] at hpoll
  -- the two sockets that follow are both asked, and neither sees that the table is full
  have hpass := Runs.cons hpoll (.cons (.accept haccept₂) (.cons (.accept haccept₃) (.nil _)))
  have hall := hclaim listening rfl _ _ s₃ ((hrun.mono fun _ _ _ hstep => hstep.2).append hpass)
  rw [hcrowd₃.length] at hall
  omega

end Twinkleshine
