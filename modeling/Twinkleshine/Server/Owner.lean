import Twinkleshine.Server.Descriptors

/-!
# The owner of the short request message

Reference: `source/server/accept.c`, `source/server/receive.c`.

A datagram is received into a buffer that all clients share, and belongs to the client it was received
for until `server_receive_data_guppy` takes it. No further datagram is received before that, and a
client that fails first, or whose acknowledgement is rejected, never takes it.
-/

namespace Twinkleshine

open Library

variable {s t : Server} {i : ℕ}

/-! ## Taking a message -/

/-- The message in the buffer is a request. -/
def Server.messageIsRequest (s : Server) : Bool :=
  s.shortRequestMessageSize ≥ guppyScheme.length &&
    s.shortRequestMessage.take guppyScheme.length = guppyScheme

/-- The request stream has room for a request, or is given some. -/
def Client.HasRoom (client : Client) (message : List UInt8) (size : ℕ) (realloc : Realloc) : Prop :=
  ∃ reserved stream, ringReserve client.requestStream (client.requestStream.size + size) realloc
      = .ok () reserved ∧
    ringPushWrite reserved (message.take size) = .ok () stream

/-- An acknowledgement passes the check, and names a chunk whose counter is in the queue. -/
def Client.Acknowledged (client : Client) (message : List UInt8) : Prop :=
  acknowledgementPasses client.response (strtoul message).1 (strtoul message).2 = true ∧
    ∃ value, ringGet client.responseQueue ⟨sizeAdd (sizeAdd sizeofResponse client.response.chunks.offset)
      (sizeSub (strtoul message).1 client.response.firstChunk), 1⟩ false = .ok value

/-- Client `i` takes the message in the first round of its visit. -/
structure TakesMessage (i : ℕ) (now : ℤ) (realloc : Realloc) (s : Server) : Prop where
  pollErr : (s.poll (pollIndex s i)).revents.pollErr = false
  pollHup : (s.poll (pollIndex s i)).revents.pollHup = false
  timeouts : ∃ remaining, checkTimeouts s i now none = .ok remaining
  ready : (startFlags i s).exhausted = false
  receives : getMakesSenseToReceive s i = true
  message : if s.messageIsRequest then
      (s.client i).HasRoom s.shortRequestMessage s.shortRequestMessageSize realloc
    else (s.client i).Acknowledged s.shortRequestMessage

/-- A message that is taken belongs to nobody. -/
theorem serverReceiveDataGuppy_takes {realloc : Realloc} {v : Visit}
    (howner : v.server.shortRequestMessageOwner = some (v.server.pointer i))
    (hmessage : if v.server.messageIsRequest then
        (v.server.client i).HasRoom v.server.shortRequestMessage v.server.shortRequestMessageSize realloc
      else (v.server.client i).Acknowledged v.server.shortRequestMessage) :
    ∃ w, serverReceiveDataGuppy i realloc v = .ok () w ∧
      w.server.shortRequestMessageOwner = none := by
  unfold serverReceiveDataGuppy
  rw [if_neg (not_not.mpr howner)]
  dsimp only
  by_cases hrequest : v.server.messageIsRequest = true
  · rw [if_pos hrequest] at hmessage
    obtain ⟨reserved, stream, hreserve, hpush⟩ := hmessage
    rw [Server.messageIsRequest, Bool.and_eq_true, decide_eq_true_iff, decide_eq_true_iff] at hrequest
    rw [if_pos hrequest, Server.onClient, hreserve]
    simp only [Outcome.mapError_ok, Outcome.andThen_ok, hpush, Outcome.mapState_ok]
    exact ⟨_, rfl, rfl⟩
  · rw [if_neg hrequest] at hmessage
    obtain ⟨hpasses, value, hvalue⟩ := hmessage
    rw [Server.messageIsRequest, Bool.and_eq_true, decide_eq_true_iff, decide_eq_true_iff] at hrequest
    rw [if_neg hrequest, if_pos hpasses, Server.onClient, acknowledgeChunk]
    simp only [hvalue, Outcome.andThen_ok, Outcome.mapState_ok]
    exact ⟨_, rfl, rfl⟩

/-- What belongs to nobody stays so during a visit. -/
theorem Visited.messageOwner_none (h : Visited i s t) (hnone : s.shortRequestMessageOwner = none) :
    t.shortRequestMessageOwner = none := by
  rcases h.messageOwner with ⟨hsame, -⟩ | ⟨hsome, -⟩
  · exact hsame.trans hnone
  · rw [hnone] at hsome
    cases hsome

section

variable {v : Visit} {now : ℤ}

/-- The first round takes the message, whatever happens behind that. -/
theorem roundBlocks_takes {answers : RoundAnswers} (hi : i < v.server.clients.elements.length)
    (howner : v.server.shortRequestMessageOwner = some (v.server.pointer i))
    (hguppy : acceptingSocketIsMessage (v.server.client i).acceptingSocket = true)
    (h : TakesMessage i now answers.receive.stream.realloc v.server)
    (hflags : v.flags = startFlags i v.server) :
    (roundBlocks i now answers v).Keeps fun w => w.server.shortRequestMessageOwner = none ∧
      i < w.server.clients.elements.length := by
  -- once the message is taken, nothing in the round attaches another
  have hkept : ∀ {u w : Server}, Visited i u w → u.shortRequestMessageOwner = none ∧
      i < u.clients.elements.length → w.shortRequestMessageOwner = none ∧
        i < w.clients.elements.length := fun hvisited hu =>
    ⟨hvisited.messageOwner_none hu.1, hvisited.length ▸ hu.2⟩
  have hfirst : roundFirst i now v = .ok () { v with first := false } :=
    roundFirst_of_live fun _ => ⟨h.pollErr, h.pollHup, h.timeouts⟩
  have hopen : v.flags.exhausted = false ∧ v.flags.closed = false ∧
      getMakesSenseToReceive v.server i = true := by
    rw [hflags]
    exact ⟨h.ready, rfl, h.receives⟩
  -- the first block lets the client live, and the second takes the message
  obtain ⟨w, hw, hnone⟩ := serverReceiveDataGuppy_takes
    (v := { v with first := false, doneSomething := true }) howner h.message
  have hlt : i < w.server.clients.elements.length := by
    have hserves := (serverReceiveDataGuppy_serves (i := i) answers.receive.stream.realloc).of_eq_ok hw
    rw [hserves.length]
    exact hi
  have hreceive : (roundReceive i now answers.receive { v with first := false }).Keeps fun w =>
      w.server.shortRequestMessageOwner = none ∧ i < w.server.clients.elements.length := by
    rw [roundReceive, if_pos hopen, serverReceiveTraffic, if_pos hguppy, hw, Outcome.andThen_ok,
      Outcome.andThen_ok]
    set noted : Visit := { w with
      server := w.server.setClient i ((w.server.client i).noteNotEmpty now)
      flags := { w.flags with exhausted := true } }
    have hnoted : noted.server.shortRequestMessageOwner = none ∧
        i < noted.server.clients.elements.length := ⟨hnone, hlt.trans_eq List.length_set.symm⟩
    split_ifs
    · exact (assertAll_keeps _ hnoted).andThen
        (fun _ u hu => hkept (finalizeClient_visited hu.2) hu) fun _ => id
    · exact hnoted
  rw [roundBlocks, hfirst, Outcome.andThen_ok]
  refine hreceive.andThen (fun finalized w hw => ?_) fun _ => id
  split_ifs
  · exact hw
  · refine ((roundParse_visited now answers.process answers.shutdown).mono fun _ h =>
      hkept h hw).andThen (fun _ u hu => ?_) fun _ => id
    exact (roundSend_visited hu.2 now answers.send).mono fun _ h => hkept h hu

end

/-- A client that takes its message in the first round leaves none behind. -/
theorem serverProcessClient_takes {now remaining remaining' : ℤ} {answers : VisitAnswers} {fuel : ℕ}
    (hi : i < s.clients.elements.length) (howner : s.shortRequestMessageOwner = some (s.pointer i))
    (hguppy : acceptingSocketIsMessage (s.client i).acceptingSocket = true)
    (h : TakesMessage i now (answers.rounds 0).receive.stream.realloc s)
    (hreturns : serverProcessClient i now remaining answers fuel s = .ok remaining' t) :
    t.shortRequestMessageOwner = none := by
  rcases fuel with _ | fuel
  · cases hreturns
  have hblocks : (roundBlocks i now (answers.rounds 0)
      { startVisit i s with doneSomething := false }).Keeps fun w =>
        w.server.shortRequestMessageOwner = none ∧ i < w.server.clients.elements.length :=
    roundBlocks_takes hi howner hguppy h rfl
  have hround : (serverProcessClientRound i now (answers.rounds 0)
      { startVisit i s with doneSomething := false }).Keeps fun w =>
        w.server.shortRequestMessageOwner = none ∧ i < w.server.clients.elements.length := by
    unfold serverProcessClientRound
    refine hblocks.handle (fun _ _ hw => hw) fun e w hw => ?_
    dsimp only
    split_ifs
    · refine (Serves.onServer (s := w.server) (.emit rfl) (Serves.onClient
        (serverProcessClientRoundRecovery_identity _ (answers.rounds 0).recovery _))).mono fun _ hu => ?_
      exact ⟨hu.visited.messageOwner_none hw.1, hu.length ▸ hw.2⟩
    · exact hw
  -- the later rounds, and the end of the visit, leave it at that
  have hall : (serverProcessClient i now remaining answers (fuel + 1) s).Keeps fun t =>
      t.shortRequestMessageOwner = none := by
    rw [serverProcessClient, serverProcessClientLoop]
    refine hround.handle (fun _ w hw => ?_) fun e w hw => ?_
    · split_ifs
      · exact (serverProcessClientLoop_visited now remaining answers fuel (0 + 1) hw.2).mono
          fun _ hu => hu.messageOwner_none hw.1
      · exact (prepareToWait_visited now remaining).messageOwner_none hw.1
    · exact ((failureActions_visited hw.2 answers.taken e).mono fun _ hu =>
        hu.messageOwner_none hw.1).andThen (fun _ _ hu => hu) fun _ => id
  exact hall.of_eq_ok hreturns

/-! ## Owners -/

/-- Whoever owns the message is in the table, and its socket and its address satisfy this. -/
def Server.MessageOwned (s : Server) (Q : ℕ → Address → Prop) : Prop :=
  ∀ owner, s.shortRequestMessageOwner = some owner → ∃ i < s.clients.elements.length,
    owner = s.pointer i ∧ Q (s.client i).acceptingSocket (s.client i).address

section

variable {Q : ℕ → Address → Prop}

theorem Server.messageOwned_of_none (h : s.shortRequestMessageOwner = none) : s.MessageOwned Q := by
  intro owner howner
  rw [h] at howner
  cases howner

/-- The table is the same, or another one that begins with it. -/
theorem Server.MessageOwned.moved (h : s.MessageOwned Q)
    (howner : t.shortRequestMessageOwner = s.shortRequestMessageOwner ∧ t.clients.p = s.clients.p ∨
      t.shortRequestMessageOwner = s.shortRequestMessageOwner.map (·.moveTo t.clients.p))
    (hlength : s.clients.elements.length ≤ t.clients.elements.length)
    (hclients : ∀ i < s.clients.elements.length, (t.client i).acceptingSocket
      = (s.client i).acceptingSocket ∧ (t.client i).address = (s.client i).address) :
    t.MessageOwned Q := by
  intro owner hsome
  rcases hold : s.shortRequestMessageOwner with _ | old
  · rcases howner with ⟨hsame, -⟩ | hmoved
    · rw [hsame, hold] at hsome
      cases hsome
    · rw [hmoved, hold] at hsome
      cases hsome
  obtain ⟨i, hi, rfl, hQ⟩ := h old hold
  obtain ⟨hsocket, haddress⟩ := hclients i hi
  refine ⟨i, Nat.lt_of_lt_of_le hi hlength, ?_, hsocket ▸ haddress ▸ hQ⟩
  rcases howner with ⟨hsame, hblock⟩ | hmoved
  · rw [hsame, hold] at hsome
    rw [← Option.some.inj hsome, Server.pointer, Server.pointer, hblock]
  · rw [hmoved, hold] at hsome
    exact (Option.some.inj hsome).symm

theorem Unadmitted.owned {born : ℕ} {closed : List ℕ} (h : Unadmitted s t born closed)
    (hs : s.MessageOwned Q) : t.MessageOwned Q := by
  refine hs.moved ?_ (by rw [h.clients]) fun i _ => by
    rw [Server.client, Server.client, h.clients]
    exact ⟨rfl, rfl⟩
  rcases h.messageOwner with hsame | hmoved
  · exact .inl ⟨hsame, h.block⟩
  · exact .inr (h.block.symm ▸ hmoved)

/-- The service of a listening socket for connections leaves the owner where it is. -/
theorem ConnectionServed.owned {index : ℕ} {load : ServerLoad} {now : ℤ} {answers : AcceptAnswers}
    (h : ConnectionServed index load now answers s t) (hs : s.MessageOwned Q) : t.MessageOwned Q := by
  rcases h with ⟨-, same⟩ | ⟨-, -, same⟩ | ⟨-, -, -, -, same⟩ | ⟨-, -, -, -, hadmitted, hmoved⟩
  · exact same.owned hs
  · exact same.owned hs
  · exact same.owned hs
  · refine hs.moved (.inr hmoved) ?_ fun i hi => by
      rw [hadmitted.client_of_lt hi]
      exact ⟨rfl, rfl⟩
    rw [hadmitted.clients, List.length_append]
    exact Nat.le_add_right _ _

/-- The client a datagram is given to is one of Guppy, with its host. -/
theorem findGuppy_spec {address : Address} (h : findGuppy address s.clients.elements = some i) :
    i < s.clients.elements.length ∧ acceptingSocketIsGuppy (s.client i).acceptingSocket = true ∧
      addressCompare address (s.client i).address = true := by
  obtain ⟨hi, hfound, -⟩ := List.findIdx?_eq_some_iff_getElem.mp h
  rw [Bool.and_eq_true] at hfound
  rw [Server.client, List.getD_eq_getElem _ _ hi]
  exact ⟨hi, hfound⟩

/-- The service of a listening socket for messages makes a client the owner that is known, or new. -/
theorem MessageServed.owned {index : ℕ} {load : ServerLoad} {now : ℤ} {answers : AcceptMessageAnswers}
    (h : MessageServed index load now answers s t) (hfree : s.shortRequestMessageOwner = none)
    (hknown : ∀ bytes address i, answers.received = .ok (bytes, address) →
      findGuppy address s.clients.elements = some i →
        Q (s.client i).acceptingSocket (s.client i).address)
    (hnew : ∀ bytes address, answers.received = .ok (bytes, address) → Q index address) :
    t.MessageOwned Q := by
  have hs := Server.messageOwned_of_none (Q := Q) hfree
  rcases h with ⟨rfl⟩ | ⟨same⟩ | ⟨hreceived, hfound, same, hattached⟩ |
    ⟨hreceived, -, -, -, hadmitted, hattached⟩
  · exact hs
  · exact same.owned hs
  · intro owner howner
    have hclient : ∀ i, t.client i = s.client i := fun i => by
      rw [Server.client, Server.client, same.clients]
    refine ⟨_, same.clients ▸ (findGuppy_spec hfound).1, ?_, ?_⟩
    · exact Option.some.inj (howner.symm.trans hattached.owner)
    · rw [hclient]
      exact hknown _ _ _ hreceived hfound
  · intro owner howner
    refine ⟨s.clients.elements.length, ?_, Option.some.inj (howner.symm.trans hattached.owner), ?_⟩
    · rw [hadmitted.clients, List.length_append]
      exact Nat.lt_succ_self _
    · rw [hadmitted.client_length]
      exact hnew _ _ hreceived

theorem clientsShuffle_owned (choices : ℕ → ℕ) (hs : s.MessageOwned Q) :
    (clientsShuffle choices s).MessageOwned Q := by
  refine hs.moved (.inl ⟨rfl, rfl⟩) (length_clientsShuffle choices s).ge fun i hi => ?_
  obtain ⟨shuffleIndex, -, hclient⟩ := client_clientsShuffle choices hi
  rw [hclient]
  exact ⟨rfl, rfl⟩

theorem Visited.owned (h : Visited i s t) (hs : s.MessageOwned Q) : t.MessageOwned Q := by
  rcases h.messageOwner with ⟨hsame, -⟩ | ⟨-, hnone⟩
  · refine hs.moved (.inl ⟨hsame, h.block⟩) h.length.ge fun j _ => ?_
    by_cases hj : j = i
    · rw [hj]
      exact ⟨h.self.acceptingSocket, h.self.address⟩
    · obtain ⟨stream, hstream⟩ := h.others j hj
      rw [hstream]
      exact ⟨rfl, rfl⟩
  · exact Server.messageOwned_of_none hnone

end

/-! ## Runs -/

/-- The client that owns the message takes it in the first round of its visit. -/
def MessageTaken : Phase × Server → ServerInput → Prop
  | (.visiting now _ (place :: _), s), .visit answers _ =>
    s.shortRequestMessageOwner = some (s.pointer (s.visited place)) →
      TakesMessage (s.visited place) now (answers.rounds 0).receive.stream.realloc s
  | _, _ => True

/-- The owner will be visited in this pass. -/
def OwnerAwaited : Phase → Server → Prop
  | .waiting _, s => s.shortRequestMessageOwner = none
  | .accepting _ _ rest, s => rest.length ≤ acceptingSockets ∧
    (rest.length = acceptingSockets → s.shortRequestMessageOwner = none)
  | .visiting _ _ rest, s =>
    ∀ owner, s.shortRequestMessageOwner = some owner →
      ∃ place ∈ rest, owner = s.pointer (s.visited place)

/-- The owner is a client of Guppy, and will be visited. -/
structure AwaitsDatagram (state : Phase × Server) : Prop where
  owned : state.2.MessageOwned fun index _ => acceptingSocketIsMessage index = true
  awaited : OwnerAwaited state.1 state.2

/-- Every step keeps that, if messages are taken. -/
theorem ServerStep.awaits {state state' : Phase × Server} {input : ServerInput}
    (h : ServerStep state input state') (hs : Tabled state) (hawaits : AwaitsDatagram state)
    (htaken : MessageTaken state input) : AwaitsDatagram state' := by
  obtain ⟨hpaired, hplaces⟩ := hs
  obtain ⟨howned, hawaited⟩ := hawaits
  cases h with
  | poll => exact ⟨howned, List.length_range.le, fun _ => hawaited⟩
  | @accept s t now load index rest answers returns =>
    have hlt : rest.length < acceptingSockets := hawaited.1
    refine ⟨?_, hlt.le, fun hfull => absurd hfull hlt.ne⟩
    rcases (serverAcceptSocket_cases hpaired.size index load now answers).of_eq_ok returns with
      ⟨rfl, -⟩ | ⟨-, served⟩ | ⟨-, hmessage, hfree, served⟩
    · exact howned
    · exact served.owned howned
    · refine served.owned hfree (fun _ _ i _ hfound => (findGuppy_spec hfound).2.1) fun _ _ _ => ?_
      simp only [acceptingSocketIsConnection, acceptingSocketIsMessage, decide_eq_false_iff_not,
        decide_eq_true_eq] at hmessage ⊢
      omega
  | shuffle s now load choices =>
    refine ⟨clientsShuffle_owned choices howned, fun owner howner => ?_⟩
    obtain ⟨i, hi, rfl, -⟩ := howned owner howner
    obtain ⟨place, hplace, hvisited⟩ := exists_visited_clientsShuffle choices hi
    exact ⟨place, List.mem_range.mpr hplace, congrArg s.pointer hvisited.symm⟩
  | @visit s t now remaining remaining' place rest answers fuel returns =>
    have hlt : s.visited place < s.clients.elements.length := hplaces _ List.mem_cons_self
    have hvisited := (serverProcessClient_visited hlt _ _ _ _).of_eq_ok returns
    refine ⟨hvisited.owned howned, fun owner howner => ?_⟩
    have hsame : s.shortRequestMessageOwner = some owner := by
      rcases hvisited.messageOwner with ⟨hsame, -⟩ | ⟨-, hnone⟩
      · exact hsame ▸ howner
      · rw [hnone] at howner
        cases howner
    obtain ⟨other, hother, rfl⟩ := hawaited owner hsame
    by_cases hself : s.visited other = s.visited place
    · -- the owner has taken its message
      rw [hself] at hsame
      obtain ⟨i, -, hpointer, hguppy⟩ := howned _ hsame
      have hi : s.visited place = i := Server.pointer_inj.mp hpointer
      rw [← hi] at hguppy
      rw [serverProcessClient_takes hlt hsame hguppy (htaken hsame) returns] at howner
      cases howner
    · rcases List.mem_cons.mp hother with rfl | hrest
      · exact absurd rfl hself
      · refine ⟨other, hrest, ?_⟩
        rw [hvisited.visited_eq, Server.pointer, Server.pointer, hvisited.block]
  | remove s now remaining =>
    have hnone : s.shortRequestMessageOwner = none := by
      rcases howner : s.shortRequestMessageOwner with _ | owner
      · rfl
      · obtain ⟨place, hplace, -⟩ := hawaited owner howner
        cases hplace
    exact ⟨Server.messageOwned_of_none hnone, hnone⟩

/-- In every run in which each message is taken in the first round of its owner's visit, nobody owns a
message after a pass, and so every pass can receive one. -/
theorem serverRun_messageOwner {polls : Buffer Poll}
    (hpolls : polls.elements.length = acceptingSockets) {inputs : List ServerInput} {phase : Phase}
    {s : Server} (hrun : Runs (StepsWhere MessageTaken ServerStep) (startState polls) inputs (phase, s)) :
    (∀ remaining, phase = .waiting remaining → s.shortRequestMessageOwner = none) ∧
      ∀ now load, phase = .accepting now load (List.range acceptingSockets) →
        s.shortRequestMessageOwner = none := by
  obtain ⟨-, -, howner⟩ := serverRun_invariant hpolls (P := AwaitsDatagram)
    ⟨Server.messageOwned_of_none rfl, rfl⟩
    (fun _ _ _ hs hawaits htaken hstep => hstep.awaits hs hawaits htaken) hrun
  refine ⟨fun remaining hphase => ?_, fun now load hphase => ?_⟩
  · rw [hphase] at howner
    exact howner
  · rw [hphase] at howner
    exact howner.2 List.length_range

/-! ## A client of Guppy -/

/-- `poll()` says that a datagram can be received. -/
def datagramReady (k : ℕ) : PollEvents := if k = 16 then ⟨true, false, false, false⟩ else .none

/-- A datagram from this port of a host. -/
def datagramFrom (port : ℕ) (bytes : List UInt8) : SocketAnswers :=
  ⟨oneAccepted, ⟨.ok (bytes, ⟨false, 1, port⟩), false, some 1, some 2⟩⟩

/-- A pass in which it is received, and nothing else. -/
def datagramPass (port : ℕ) (bytes : List UInt8) : PassAnswers :=
  ⟨datagramReady, 0, false, false, fun _ => datagramFrom port bytes, id, fun _ => quietVisit, 5⟩

/-- Client `i` takes the message, which is a request: what can be computed of `TakesMessage`. -/
def Server.takesRequest (i : ℕ) (now : ℤ) (realloc : Realloc) (s : Server) : Bool :=
  !(s.poll (pollIndex s i)).revents.pollErr && !(s.poll (pollIndex s i)).revents.pollHup &&
    (checkTimeouts s i now none).isOk && !(startFlags i s).exhausted && getMakesSenseToReceive s i &&
    s.messageIsRequest &&
    ((ringReserve (s.client i).requestStream
        ((s.client i).requestStream.size + s.shortRequestMessageSize) realloc).andThen fun _ reserved =>
      ringPushWrite reserved (s.shortRequestMessage.take s.shortRequestMessageSize)).returnsIn fun _ => true

theorem TakesMessage.of_takesRequest {now : ℤ} {realloc : Realloc}
    (h : s.takesRequest i now realloc = true) :
    TakesMessage i now realloc s ∧ s.messageIsRequest = true := by
  simp only [Server.takesRequest, Bool.and_eq_true, Bool.not_eq_true'] at h
  obtain ⟨⟨⟨⟨⟨⟨herr, hhup⟩, htimeouts⟩, hready⟩, hreceives⟩, hrequest⟩, hroom⟩ := h
  obtain ⟨_, stream, hpushed, -⟩ := Outcome.exists_of_returnsIn hroom
  obtain ⟨_, reserved, hreserve, hpush⟩ := Outcome.andThen_eq_ok.mp hpushed
  refine ⟨⟨herr, hhup, ?_, hready, hreceives, ?_⟩, hrequest⟩
  · rcases hchecked : checkTimeouts s i now none with e | remaining
    · rw [hchecked] at htimeouts
      cases htimeouts
    · exact ⟨remaining, rfl⟩
  · rw [if_pos hrequest]
    exact ⟨reserved, stream, hreserve, hpush⟩

/-- The beginning of a request is received, and taken. -/
theorem serverRun_messageOwner_taken : ∃ inputs remaining t,
    Runs (StepsWhere MessageTaken ServerStep) (startState listening) inputs (.waiting remaining, t) ∧
    t.clients.elements.length = 1 ∧ t.shortRequestMessageOwner = none := by
  set answers := datagramPass 2 (ascii "guppy://")
  set s₁ := pollAll datagramReady (.initial listening)
  have hrun : (acceptSockets ⟨false, false, false⟩ 0 answers.sockets (List.range acceptingSockets)
      s₁).returnsIn (fun s₂ =>
        let s := clientsShuffle id s₂
        s₂.clients.elements.length = 1 ∧ s.visited 0 = 0 ∧ s.takesRequest 0 0 grantAll = true ∧
          (serverProcessClient 0 0 intMax quietVisit 5 s).returnsIn (fun t =>
            (clientsRemoveFinalized t).clients.elements.length = 1) = true) = true := by
    decide +kernel
  obtain ⟨_, s₂, haccept, hcheck⟩ := Outcome.exists_of_returnsIn hrun
  obtain ⟨hlength, hplace, htaken, hvisit⟩ := of_decide_eq_true hcheck
  -- the client that was made for the message is visited next
  set s := clientsShuffle id s₂
  obtain ⟨remaining, t, hreturns, hkept⟩ := Outcome.exists_of_returnsIn hvisit
  obtain ⟨htakes, -⟩ := TakesMessage.of_takesRequest htaken
  obtain ⟨accepts, hrun₁⟩ := acceptSockets_runs MessageTaken (fun rest s input => by cases input <;> trivial)
    haccept
  have hshuffle : ServerStep (.accepting 0 ⟨false, false, false⟩ [], s₂) (.shuffle id)
      (.visiting 0 intMax [0], s) := by
    have hstep := ServerStep.shuffle s₂ 0 ⟨false, false, false⟩ id
    rwa [hlength] at hstep
  have hsteps : Runs (StepsWhere MessageTaken ServerStep) (startState listening)
      (.poll datagramReady 0 false false :: (accepts ++ [.shuffle id, .visit quietVisit 5, .remove]))
      (.waiting remaining, clientsRemoveFinalized t) := by
    refine .cons ⟨trivial, .poll (.initial listening) intMax datagramReady 0 false false⟩
      (hrun₁.append (.cons ⟨trivial, hshuffle⟩ (.cons ⟨fun _ => ?_, .visit ?_⟩
        (.cons ⟨trivial, .remove t 0 remaining⟩ (.nil _)))))
    · rw [hplace]
      exact htakes
    · rw [hplace]
      exact hreturns
  exact ⟨_, _, _, hsteps, of_decide_eq_true hkept, (serverRun_messageOwner rfl hsteps).1 _ rfl⟩

/-- A client whose acknowledgement is rejected keeps the message, and nobody receives another. -/
theorem serverRun_messageOwner_kept : ¬ ∀ (polls : Buffer Poll),
    polls.elements.length = acceptingSockets → ∀ inputs remaining s,
      Runs ServerStep (startState polls) inputs (.waiting remaining, s) →
        s.shortRequestMessageOwner = none := by
  intro hclaim
  have hpasses : ((serverProcessClients (datagramPass 2 (ascii "guppy://")) (.initial listening)).andThen
      fun _ s => serverProcessClients (datagramPass 2 (ascii "hello")) s).returnsIn
        (fun s => s.shortRequestMessageOwner ≠ none) = true := by decide +kernel
  obtain ⟨remaining, t, hreturns, hkept⟩ := Outcome.exists_of_returnsIn hpasses
  obtain ⟨before, s, hfirst, hsecond⟩ := Outcome.andThen_eq_ok.mp hreturns
  obtain ⟨inputs, hrun⟩ := serverProcessClients_runs hfirst intMax
  obtain ⟨inputs', hrun'⟩ := serverProcessClients_runs hsecond before
  exact of_decide_eq_true hkept (hclaim listening rfl _ _ _ (hrun.append hrun'))

end Twinkleshine
