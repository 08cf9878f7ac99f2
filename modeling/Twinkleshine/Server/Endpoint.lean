import Twinkleshine.Server.Requests
import Twinkleshine.Server.Unheard

/-!
# Datagrams and their endpoints

Reference: `source/server/accept.c`.

`address_compare` compares the hosts of two addresses and leaves out their ports, so a datagram is given
to the first client of Guppy on the host it comes from.
-/

namespace Twinkleshine

open Library

variable {s t : Server} {i : ℕ}

/-! ## One datagram -/

/-- The client that is found for a datagram has the port that it comes from. -/
def Server.FindsPort (s : Server) (address : Address) : Prop :=
  ∀ i, findGuppy address s.clients.elements = some i → (s.client i).address.port = address.port

/-- A datagram that is attached to a client from before comes from its endpoint. -/
def AttachedRightly (address : Address) (s t : Server) : Prop :=
  ∀ i < s.clients.elements.length, t.shortRequestMessageOwner = some (t.pointer i) →
    (t.client i).address = address

theorem address_eq_of_compare {a b : Address} (h : addressCompare a b = true) (hport : b.port = a.port) :
    b = a := by
  obtain ⟨inet6, addr, port⟩ := a
  obtain ⟨inet6', addr', port'⟩ := b
  rw [addressCompare, Bool.and_eq_true, beq_iff_eq, beq_iff_eq] at h
  obtain ⟨hinet6, haddr⟩ := h
  dsimp only at hinet6 haddr hport
  rw [hinet6, haddr, hport]

/-- The client that is made for a message is the last one. -/
theorem serverCreateMessageClient_owner (hfree : s.shortRequestMessageOwner = none) (index : ℕ)
    (address : Address) (size : ℕ) (now : ℤ) (answers : AcceptMessageAnswers) :
    (serverCreateMessageClient index address size now answers s).Keeps fun t =>
      t.shortRequestMessageOwner = none ∨
        t.shortRequestMessageOwner = some (t.pointer s.clients.elements.length) := by
  unfold serverCreateMessageClient
  refine (pollsAppend_meets answers.polls _ _).handle (fun _ t ht => ?_) fun e t ht => ?_
  · obtain ⟨-, polls, rfl, -⟩ := ht
    refine (clientsAppend_meets answers.clients _ _).handle (fun _ t ht => ?_) fun e t ht => ?_
    · obtain ⟨-, clients, rfl, hclients⟩ := ht
      have hlast : clients.elements.length - 1 = s.clients.elements.length := by
        rw [hclients, List.length_append]
        rfl
      exact .inr (congrArg (fun i => some (ClientPointer.mk clients.p i)) hlast)
    · rw [ht.2]
      exact .inl (by simp [Server.withClients, hfree])
  · rw [ht.2]
    exact .inl hfree

/-- A datagram is attached to a client of its own endpoint exactly when the client that is found for it
has its port. -/
theorem serverAcceptMessage_attached {index : ℕ} {load : ServerLoad} {now : ℤ}
    {answers : AcceptMessageAnswers} {bytes : List UInt8} {address : Address}
    (hfree : s.shortRequestMessageOwner = none) (hreceived : answers.received = .ok (bytes, address)) :
    (serverAcceptMessage index load now answers s).Keeps fun t =>
      (AttachedRightly address s t ↔ s.FindsPort address) := by
  unfold serverAcceptMessage
  rw [hreceived]
  dsimp only
  have hunfound : findGuppy address s.clients.elements = none → s.FindsPort address := by
    intro hnone i hsome
    rw [hnone] at hsome
    cases hsome
  have hnobody : ∀ t : Server, t.shortRequestMessageOwner = none → AttachedRightly address s t := by
    intro t hnone i _ howner
    rw [hnone] at howner
    cases howner
  rcases hfind : findGuppy address (receiveMessage (bytes.take 2048) s).clients.elements with _ | i
  · dsimp only
    split_ifs
    · exact iff_of_true (hnobody _ hfree) (hunfound hfind)
    · exact iff_of_true (hnobody _ hfree) (hunfound hfind)
    · refine (serverCreateMessageClient_owner (s := receiveMessage (bytes.take 2048) s) hfree _ _ _ _
        _).mono fun t ht => ?_
      refine iff_of_true (ht.elim (hnobody t) fun hlast i hi howner => ?_) (hunfound hfind)
      have heq := Server.pointer_inj.mp (Option.some.inj (hlast.symm.trans howner))
      exact absurd heq.symm hi.ne
  · obtain ⟨hi, -, hcompare⟩ := findGuppy_spec (s := s) hfind
    refine Iff.intro (fun hright j hj => ?_) fun hport j _ howner => ?_
    · obtain rfl : i = j := Option.some.inj (hfind.symm.trans hj)
      exact congrArg Address.port (hright i hi rfl)
    · have heq := Server.pointer_inj.mp (Option.some.inj howner)
      rw [← heq]
      exact address_eq_of_compare hcompare (hport i hfind)

/-! ## Runs -/

/-- A datagram would be received at a listening socket. -/
def Server.receivesAt (s : Server) (index : ℕ) : Bool :=
  (s.poll index).revents.pollIn && !acceptingSocketIsConnection index &&
    s.shortRequestMessageOwner.isNone

/-- What is known of the datagrams besides what the server keeps: who sent the last one, and what those of
each endpoint alone would have left in the buffer. -/
structure Heard where
  sender : Option Address
  alone : Address → List UInt8

def Heard.nothing : Heard := ⟨none, fun _ => []⟩

/-- A datagram is received into the buffer. -/
def Heard.receive (bytes : List UInt8) (address : Address) (heard : Heard) : Heard where
  sender := some address
  alone other :=
    if other = address then memcpy (heard.alone other) 0 (bytes.take 2048) else heard.alone other

/-- What is known after a step. -/
def heardAfter : Phase × Server → ServerInput → Heard → Heard
  | (.accepting _ _ (index :: _), s), .accept answers, heard =>
    if s.receivesAt index then
      match answers.message.received with
      | .ok (bytes, address) => heard.receive bytes address
      | .error _ => heard
    else heard
  | _, _, heard => heard

/-- A step of the server, with what is known of the datagrams. -/
structure DatagramStep (state : (Phase × Server) × Heard) (input : ServerInput)
    (state' : (Phase × Server) × Heard) : Prop where
  server : ServerStep state.1 input state'.1
  heard : state'.2 = heardAfter state.1 input state.2

/-- `poll()` has reported a datagram, at the socket of client `i` or at another one for messages. -/
def Server.Hears (s : Server) (i : ℕ) : Prop :=
  ∃ k, (k = pollIndex s i ∨ k < acceptingSockets ∧ acceptingSocketIsMessage k = true) ∧
    (s.poll k).revents.pollIn = true

/-- No datagram comes from a host for which a client with another port is found. The owner of a message takes
it, and reads it as if nobody else had sent one; and whoever is visited without owning the message rests, if
`poll()` has reported one. -/
def OneEndpoint : (Phase × Server) × Heard → ServerInput → Prop
  | ((.accepting _ _ (index :: _), s), _), .accept answers =>
    s.receivesAt index = true → ∀ bytes address,
      answers.message.received = .ok (bytes, address) → s.FindsPort address
  | ((.visiting now _ (place :: _), s), heard), .visit answers _ =>
    let i := s.visited place
    (s.shortRequestMessageOwner = some (s.pointer i) →
      TakesMessage i now (answers.rounds 0).receive.stream.realloc s ∧
        (s.messageIsRequest = true ∨ (s.client i).acknowledged (heard.alone (s.client i).address)
          = (s.client i).acknowledged s.shortRequestMessage)) ∧
    (s.shortRequestMessageOwner ≠ some (s.pointer i) →
      acceptingSocketIsMessage (s.client i).acceptingSocket = true → s.Hears i → s.Rests i now)
  | _, _ => True

/-- The owner of the message has the endpoint that sent it, and the buffer begins with what the datagrams of
this endpoint alone would have left there. -/
structure SentBy (heard : Heard) (s : Server) : Prop where
  owned : s.MessageOwned fun index address =>
    acceptingSocketIsMessage index = true ∧ heard.sender = some address
  begins : s.shortRequestMessageOwner ≠ none → ∀ address, heard.sender = some address →
    (heard.alone address).take s.shortRequestMessageSize
      = s.shortRequestMessage.take s.shortRequestMessageSize

theorem SentBy.of_none {heard : Heard} (h : s.shortRequestMessageOwner = none) : SentBy heard s :=
  ⟨Server.messageOwned_of_none h, fun howner => absurd h howner⟩

theorem take_memcpy (block bytes : List UInt8) : (memcpy block 0 bytes).take bytes.length = bytes := by
  rw [memcpy, overwrite, List.take_zero, List.nil_append, List.take_left]

/-- The service of a listening socket for connections leaves the message in the buffer. -/
theorem serverAcceptConnection_message (index : ℕ) (load : ServerLoad) (now : ℤ) (answers : AcceptAnswers)
    (s : Server) :
    (serverAcceptConnection index load now answers s).Keeps fun t =>
      t.shortRequestMessage = s.shortRequestMessage ∧
        t.shortRequestMessageSize = s.shortRequestMessageSize := by
  have hfailure : ∀ (size birth : ℕ) (opened : Bool) (e : ExError) (t : Server),
      t.shortRequestMessage = s.shortRequestMessage ∧
        t.shortRequestMessageSize = s.shortRequestMessageSize →
      (acceptFailure size opened birth e t).Keeps fun t =>
        t.shortRequestMessage = s.shortRequestMessage ∧
          t.shortRequestMessageSize = s.shortRequestMessageSize := by
    intro size birth opened e t ht
    unfold acceptFailure
    cases opened <;> dsimp only <;> split_ifs <;> exact ht
  unfold serverAcceptConnection
  rcases answers.accepted with _ | ⟨fd, address⟩
  · exact hfailure _ _ _ _ _ ⟨rfl, rfl⟩
  dsimp only
  split_ifs
  · unfold serverSendLowResourcesConnection
    dsimp only
    split_ifs <;> exact ⟨rfl, rfl⟩
  · rcases initializeClient index answers.cryptography (newClient index address now s.births)
      with ⟨_, client⟩ | ⟨e, client⟩ | _
    · refine (pollsAppend_meets answers.polls _ _).handle (fun _ t ht => ?_) fun e t ht => ?_
      · obtain ⟨-, polls, rfl, -⟩ := ht
        refine (clientsAppend_meets answers.clients client _).handle (fun _ t ht => ?_) fun e t ht => ?_
        · obtain ⟨-, clients, rfl, -⟩ := ht
          exact ⟨rfl, rfl⟩
        · rw [ht.2]
          exact hfailure _ _ _ _ _ ⟨rfl, rfl⟩
      · rw [ht.2]
        exact hfailure _ _ _ _ _ ⟨rfl, rfl⟩
    · exact hfailure _ _ _ _ _ ⟨rfl, rfl⟩
    · exact trivial
  · exact hfailure _ _ _ _ _ ⟨rfl, rfl⟩

theorem serverAcceptSocket_asked {index : ℕ} {load : ServerLoad} {now : ℤ} {answers : SocketAnswers}
    (hasked : s.acceptsAt index = true) (h : serverAcceptSocket load now answers index s = .ok () t) :
    serverAcceptConnection index load now answers.connection s = .ok () t := by
  obtain ⟨⟨herr, hhup⟩, hin, hconnection⟩ := Server.acceptsAt_iff.mp hasked
  rw [serverAcceptSocket, herr, hhup, hin, hconnection] at h
  exact h

theorem Unadmitted.messageOwner_none {born : ℕ} {closed : List ℕ} (h : Unadmitted s t born closed)
    (hnone : s.shortRequestMessageOwner = none) : t.shortRequestMessageOwner = none := by
  rcases h.messageOwner with hsame | hmoved
  · rw [hsame, hnone]
  · rw [hmoved, hnone]
    rfl

theorem ConnectionServed.messageOwner_none {index : ℕ} {load : ServerLoad} {now : ℤ}
    {answers : AcceptAnswers} (h : ConnectionServed index load now answers s t)
    (hnone : s.shortRequestMessageOwner = none) : t.shortRequestMessageOwner = none := by
  cases h with
  | failed _ same => exact same.messageOwner_none hnone
  | closed _ _ same => exact same.messageOwner_none hnone
  | forgotten _ _ _ _ same => exact same.messageOwner_none hnone
  | connected _ _ _ _ _ messageOwner =>
    rw [messageOwner, hnone]
    rfl

/-- A message that is attached comes from the endpoint of its client, if the client that is found for it has
its port. -/
theorem MessageServed.sentBy {index : ℕ} {load : ServerLoad} {now : ℤ} {answers : AcceptMessageAnswers}
    {heard : Heard} (h : MessageServed index load now answers s t)
    (hmessage : acceptingSocketIsConnection index = false) (hfree : s.shortRequestMessageOwner = none)
    (hport : ∀ bytes address, answers.received = .ok (bytes, address) → s.FindsPort address) :
    SentBy (match answers.received with
      | .ok (bytes, address) => heard.receive bytes address
      | .error _ => heard) t := by
  have hindex : acceptingSocketIsMessage index = true := by
    simp only [acceptingSocketIsConnection, acceptingSocketIsMessage, decide_eq_false_iff_not,
      decide_eq_true_eq] at hmessage ⊢
    omega
  refine ⟨h.owned hfree (fun bytes address i hreceived hfound => ?_) fun bytes address hreceived => ?_, ?_⟩
  · obtain ⟨-, hguppy, hcompare⟩ := findGuppy_spec hfound
    rw [hreceived, address_eq_of_compare hcompare (hport bytes address hreceived i hfound)]
    exact ⟨hguppy, rfl⟩
  · rw [hreceived]
    exact ⟨hindex, rfl⟩
  · -- what is attached was received just now, and stands at the beginning of the buffer
    have hattached : ∀ {bytes : List UInt8} {address : Address} {i : ℕ},
        answers.received = .ok (bytes, address) → Attached bytes i s t → ∀ other,
          (match answers.received with
            | .ok (bytes, address) => heard.receive bytes address
            | .error _ => heard).sender = some other →
          ((match answers.received with
            | .ok (bytes, address) => heard.receive bytes address
            | .error _ => heard).alone other).take t.shortRequestMessageSize
            = t.shortRequestMessage.take t.shortRequestMessageSize := by
      intro bytes address i hreceived hattached other hother
      rw [hreceived] at hother ⊢
      obtain rfl : address = other := Option.some.inj hother
      have halone : (heard.receive bytes address).alone address
          = memcpy (heard.alone address) 0 (bytes.take 2048) := if_pos rfl
      dsimp only
      rw [hattached.size, hattached.message, halone, take_memcpy, take_memcpy]
    intro howner
    cases h with
    | failed same =>
      rw [same] at howner
      exact absurd hfree howner
    | refused same => exact absurd (same.messageOwner_none hfree) howner
    | known received _ _ attached => exact hattached received attached
    | created received _ _ _ _ attached => exact hattached received attached

/-- Every step keeps that, if messages come from the endpoint of the client they are attached to. -/
theorem DatagramStep.sentBy {state state' : (Phase × Server) × Heard} {input : ServerInput}
    (h : DatagramStep state input state') (hs : Tabled state.1) (hawaits : AwaitsDatagram state.1)
    (hsent : SentBy state.2 state.1.2) (hone : OneEndpoint state input) : SentBy state'.2 state'.1.2 := by
  obtain ⟨⟨phase, s⟩, heard⟩ := state
  obtain ⟨⟨phase', t⟩, heard'⟩ := state'
  obtain ⟨hstep, hheard⟩ := h
  obtain ⟨hpaired, hplaces⟩ := hs
  dsimp only at hstep hheard hsent hpaired hplaces ⊢
  subst hheard
  cases hstep with
  | poll => exact ⟨hsent.owned, hsent.begins⟩
  | @accept _ _ now load index rest answers returns =>
    rw [heardAfter]
    rcases (serverAcceptSocket_cases hpaired.size index load now answers).of_eq_ok returns with
      ⟨rfl, -⟩ | ⟨hasked, served⟩ | ⟨hready, hmessage, hfree, served⟩
    · rcases howner : t.shortRequestMessageOwner with _ | owner
      · exact .of_none howner
      · have hunreceived : t.receivesAt index = false := by simp [Server.receivesAt, howner]
        rw [if_neg (by rw [hunreceived]; exact Bool.false_ne_true)]
        exact hsent
    · have hunreceived : s.receivesAt index = false := by
        simp [Server.receivesAt, (Server.acceptsAt_iff.mp hasked).2.2]
      rw [if_neg (by rw [hunreceived]; exact Bool.false_ne_true)]
      -- a connection leaves the message as it is
      obtain ⟨hmessage, hsize⟩ := (serverAcceptConnection_message index load now answers.connection
        s).of_eq_ok (serverAcceptSocket_asked hasked returns)
      refine ⟨served.owned hsent.owned, fun howner address haddress => ?_⟩
      rw [hmessage, hsize]
      exact hsent.begins (fun hnone => howner (served.messageOwner_none hnone)) address haddress
    · -- a message has come: its sender is known from here on
      have hreceives : s.receivesAt index = true := by
        simp [Server.receivesAt, hready, hmessage, hfree]
      rw [if_pos hreceives]
      exact served.sentBy hmessage hfree (hone hreceives)
  | shuffle _ now load choices => exact ⟨clientsShuffle_owned choices hsent.owned, hsent.begins⟩
  | visit returns =>
    have hlt := hplaces _ List.mem_cons_self
    have hvisited := (serverProcessClient_visited hlt _ _ _ _).of_eq_ok returns
    refine ⟨hvisited.owned hsent.owned, fun howner address haddress => ?_⟩
    rcases hvisited.messageOwner with ⟨hsame, hsize⟩ | ⟨-, hnone⟩
    · rw [hvisited.message, hsize]
      exact hsent.begins (hsame ▸ howner) address haddress
    · exact absurd hnone howner
  | remove s now remaining =>
    have hnone : s.shortRequestMessageOwner = none := by
      rcases howner : s.shortRequestMessageOwner with _ | owner
      · rfl
      · obtain ⟨place, hplace, -⟩ := hawaits.awaited owner howner
        cases hplace
    exact .of_none hnone

/-! ## What the others do to a client -/

/-- Client `i` is the same, but for its place in the order of the visits, and for what may have been moved to
its response stream. -/
def Server.Spares (i : ℕ) (s t : Server) : Prop :=
  ∃ shuffleIndex stream, t.client i =
    { s.client i with shuffleIndex := shuffleIndex, responseStream := stream }

/-- What a step may do to client `i`. Its own visits alone change it otherwise, and they do to it what they
would do if nobody else had sent a message, but for times that do not count; and the server forgets it only
when it is finalized. -/
def LeftAlone (i : ℕ) :
    (Phase × Server) × Heard → ServerInput → (Phase × Server) × Heard → Prop
  | ((.visiting now remaining (place :: _), s), heard), .visit answers _, ((_, t), _) =>
    if s.visited place = i then
      (s.shortRequestMessageOwner = some (s.pointer i) → heard.sender = some (s.client i).address) ∧
      (s.shortRequestMessageOwner ≠ some (s.pointer i) → s.Hears i →
        s.Noted i (t.client i) ∨ (t.client i).dead = true) ∧
      ∃ fuel' remaining' t', serverProcessClient i now remaining answers fuel'
        (s.alone i (heard.alone (s.client i).address)) = .ok remaining' t' ∧
          (t'.client i = t.client i ∨ s.Noted i (t'.client i) ∧ s.Noted i (t.client i))
    else s.Spares i t
  | ((_, s), _), .remove, ((_, t), _) =>
    t.clients.elements = s.clients.elements.filter fun client => !client.dead
  | ((_, s), _), _, ((_, t), _) => s.Spares i t

theorem Server.Spares.of_eq (h : t.client i = s.client i) : s.Spares i t := ⟨_, _, h⟩

/-- The service of a listening socket changes nobody who is there. -/
theorem SocketServed.client_of_lt {index : ℕ} {load : ServerLoad} {now : ℤ} {answers : SocketAnswers}
    (h : SocketServed index load now answers s t) (hi : i < s.clients.elements.length) :
    t.client i = s.client i := by
  have hsame : t.clients.elements = s.clients.elements → t.client i = s.client i := fun hclients => by
    rw [Server.client, Server.client, hclients]
  rcases h with ⟨rfl, -⟩ | ⟨-, served⟩ | ⟨-, -, -, served⟩
  · rfl
  · cases served with
    | failed _ same => exact hsame same.clients
    | closed _ _ same => exact hsame same.clients
    | forgotten _ _ _ _ same => exact hsame same.clients
    | connected _ _ _ _ admitted => exact admitted.client_of_lt hi
  · cases served with
    | failed same => exact congrArg (·.client i) same
    | refused same => exact hsame same.clients
    | known _ _ same => exact hsame (congrArg Buffer.elements same.clients)
    | created _ _ _ _ admitted => exact admitted.client_of_lt hi

/-- A client of Guppy, if it is one, is as it was made. -/
def Client.OfGuppyIfMessage (client : Client) : Prop :=
  acceptingSocketIsMessage client.acceptingSocket = true → client.OfGuppy

theorem Client.Made.ofGuppy {client : Client} (h : client.Made) : client.OfGuppyIfMessage := by
  intro hmessage
  rcases h with ⟨hconnection, hreturns⟩ | ⟨-, rfl⟩
  · rw [(initializeClient_identity hreturns).acceptingSocket, newClient] at hmessage
    simp only [acceptingSocketIsConnection, acceptingSocketIsMessage, decide_eq_true_eq]
      at hconnection hmessage
    omega
  · exact ⟨hmessage, rfl, rfl⟩

/-- In every run in which messages are taken the clients of Guppy are as they were made. -/
theorem serverRun_ofGuppy {polls : Buffer Poll} (hpolls : polls.elements.length = acceptingSockets)
    {inputs : List ServerInput} {state : Phase × Server}
    (hrun : Runs (StepsWhere MessageTaken ServerStep) (startState polls) inputs state) :
    state.2.All Client.OfGuppyIfMessage := by
  refine (serverRun_clients hpolls (fun _ hmade => hmade.ofGuppy)
    (fun client k h hmessage => ⟨hmessage, (h hmessage).ssl, (h hmessage).operational⟩) ?_ hrun).2.2
  intro now remaining place rest s answers fuel hlt htaken _ hall
  refine Outcome.yields_of_forall fun remaining' t hreturns j hj hmessage => ?_
  have hvisited := (serverProcessClient_visited hlt _ _ _ _).of_eq_ok hreturns
  by_cases hji : j = s.visited place
  · subst hji
    rw [hvisited.self.acceptingSocket] at hmessage
    exact (serverProcessClient_ofGuppy (hall _ hlt hmessage) now remaining answers fuel htaken).of_eq_ok
      hreturns
  · obtain ⟨stream, hstream⟩ := hvisited.others j hji
    rw [hstream] at hmessage ⊢
    have hclient := hall j (hvisited.length ▸ hj) hmessage
    exact ⟨hmessage, hclient.ssl, hclient.operational⟩

/-- Every step that meets the condition leaves a client of Guppy alone. -/
theorem DatagramStep.leftAlone {state state' : (Phase × Server) × Heard} {input : ServerInput}
    (h : DatagramStep state input state') (hs : Tabled state.1) (hsent : SentBy state.2 state.1.2)
    (hall : state.1.2.All Client.OfGuppyIfMessage) (hone : OneEndpoint state input)
    (hi : i < state.1.2.clients.elements.length)
    (hmessage : acceptingSocketIsMessage (state.1.2.client i).acceptingSocket = true) :
    LeftAlone i state input state' := by
  obtain ⟨⟨phase, s⟩, heard⟩ := state
  obtain ⟨⟨phase', t⟩, heard'⟩ := state'
  have hpaired := hs.paired
  have hclient := hall i hi hmessage
  obtain ⟨hstep, -⟩ := h
  dsimp only at hstep hsent hpaired hi hmessage hclient
  cases hstep with
  | poll => exact .of_eq rfl
  | accept returns =>
    exact .of_eq (((serverAcceptSocket_cases hpaired.size _ _ _ _).of_eq_ok returns).client_of_lt hi)
  | shuffle _ now load choices =>
    obtain ⟨shuffleIndex, -, hshuffled⟩ := client_clientsShuffle choices hi
    exact ⟨shuffleIndex, _, hshuffled⟩
  | @visit s t now remaining remaining' place rest answers fuel returns =>
    have hlt := hs.places _ List.mem_cons_self
    rw [LeftAlone]
    -- its own visit: the message is of its endpoint, or it rests
    by_cases hself : s.visited place = i
    · subst hself
      rw [if_pos rfl]
      obtain ⟨haddressed, hrests⟩ := hone
      refine ⟨fun howner => ?_, fun howner hhears => ?_, ?_⟩
      · obtain ⟨j, -, hpointer, -, hsender⟩ := hsent.owned _ howner
        rw [Server.pointer_inj.mp hpointer]
        exact hsender
      · exact (serverProcessClient_restsAlone ⟨hclient, howner⟩ (hrests howner hmessage hhears) returns
          (.only [])).1
      · refine serverProcessClient_alone hclient (fun howner => ?_) (fun howner hpolled => ?_) returns
        · obtain ⟨htakes, hread⟩ := haddressed howner
          obtain ⟨j, -, hpointer, -, hsender⟩ := hsent.owned _ howner
          refine ⟨htakes, ?_, hread⟩
          rw [Server.pointer_inj.mp hpointer]
          exact hsent.begins (howner ▸ Option.some_ne_none _) _ hsender
        · exact hrests howner hmessage ⟨_, .inl rfl, hpolled⟩
    · rw [if_neg hself]
      obtain ⟨stream, hstream⟩ := ((serverProcessClient_visited hlt _ _ _ _).of_eq_ok returns).others i
        (Ne.symm hself)
      exact ⟨_, stream, hstream⟩
  | remove s now remaining => exact (clientsRemoveFinalized_compacted hpaired).clients

/-- A datagram is attached to a client of its own endpoint exactly when the client that is found for it
has its port. In every run in which this is so, in which every message is taken, and read as if nobody else
had sent one, and in which the other clients of Guppy rest while there is one, no step does to a client of
Guppy what its own endpoint does not account for. -/
theorem serverRun_datagrams {polls : Buffer Poll}
    (hpolls : polls.elements.length = acceptingSockets) :
    (∀ s index load now answers bytes address, s.shortRequestMessageOwner = none →
      answers.received = .ok (bytes, address) →
        (serverAcceptMessage index load now answers s).Keeps fun t =>
          (AttachedRightly address s t ↔ s.FindsPort address)) ∧
    ∀ inputs state, Runs (StepsWhere OneEndpoint DatagramStep) (startState polls, .nothing) inputs state →
      ∀ input state', StepsWhere OneEndpoint DatagramStep state input state' →
        ∀ i < state.1.2.clients.elements.length,
          acceptingSocketIsMessage (state.1.2.client i).acceptingSocket = true →
            LeftAlone i state input state' := by
  refine ⟨fun s index load now answers bytes address hfree hreceived =>
    serverAcceptMessage_attached hfree hreceived, fun inputs state hrun input state' hlast i hi hmessage => ?_⟩
  have htaken : ∀ u l, OneEndpoint u l → MessageTaken u.1 l := by
    rintro ⟨⟨phase, s⟩, heard⟩ l hone
    rcases phase with _ | _ | ⟨now, remaining, _ | ⟨place, rest⟩⟩ <;> cases l <;>
      first | exact trivial | exact fun howner => (hone.1 howner).1
  -- what is known of the datagrams does not change what the server does
  have hsimulates : ∀ u l u', True → StepsWhere OneEndpoint DatagramStep u l u' →
      True ∧ StepsWhere MessageTaken ServerStep u.1 l u'.1 :=
    fun u l u' _ hstep => ⟨trivial, htaken u l hstep.1, hstep.2.server⟩
  obtain ⟨-, hserver⟩ := hrun.simulation Prod.fst trivial hsimulates
  have hkeeps : ∀ u l u', (Tabled u.1 ∧ AwaitsDatagram u.1) ∧ SentBy u.2 u.1.2 →
      StepsWhere OneEndpoint DatagramStep u l u' →
        (Tabled u'.1 ∧ AwaitsDatagram u'.1) ∧ SentBy u'.2 u'.1.2 :=
    fun u l u' ⟨⟨htabled, hawaits⟩, hsent⟩ hstep =>
      ⟨⟨hstep.2.server.tabled htabled, hstep.2.server.awaits htabled hawaits (htaken u l hstep.1)⟩,
        hstep.2.sentBy htabled hawaits hsent hstep.1⟩
  obtain ⟨⟨htabled, -⟩, hsent⟩ := hrun.invariant
    ⟨⟨startState_tabled hpolls, Server.messageOwned_of_none rfl, rfl⟩, .of_none rfl⟩ hkeeps
  exact hlast.2.leftAlone htabled hsent (serverRun_ofGuppy hpolls hserver) hlast.1 hi hmessage

/-- A step that meets the condition, whatever the datagrams were. -/
def OneEndpointAnyway (state : Phase × Server) (input : ServerInput) : Prop :=
  ∀ heard, OneEndpoint (state, heard) input

/-- What is known of the datagrams follows a run. -/
theorem heard_runs {state state' : Phase × Server} {inputs : List ServerInput}
    (hrun : Runs (StepsWhere OneEndpointAnyway ServerStep) state inputs state') (heard : Heard) :
    ∃ heard', Runs (StepsWhere OneEndpoint DatagramStep) (state, heard) inputs (state', heard') := by
  induction hrun generalizing heard with
  | nil state => exact ⟨heard, .nil _⟩
  | @cons state next state' input inputs head tail ih =>
    obtain ⟨hone, hstep⟩ := head
    obtain ⟨heard', hrest⟩ := ih (heardAfter state input heard)
    exact ⟨heard', .cons ⟨hone heard, hstep, rfl⟩ hrest⟩

/-- What can be computed of `FindsPort`. -/
def Server.findsPort (s : Server) (address : Address) : Bool :=
  (findGuppy address s.clients.elements).all fun i => (s.client i).address.port == address.port

theorem Server.FindsPort.of_findsPort {address : Address} (h : s.findsPort address = true) :
    s.FindsPort address := by
  intro i hi
  rw [Server.findsPort, hi, Option.all_some] at h
  exact beq_iff_eq.mp h

/-- The beginning of a request comes from an address. -/
def guppyFrom (address : Address) : SocketAnswers :=
  ⟨oneAccepted, ⟨.ok (ascii "guppy://", address), false, some 1, some 2⟩⟩

/-- A pass in which it comes, up to its visits. -/
theorem untilVisits_runs {address : Address} {load : ServerLoad} (remaining : ℤ)
    (hload : s.load false false = load)
    (h : acceptSockets load 0 (fun _ => guppyFrom address) (List.range acceptingSockets)
      (pollAll datagramReady s) = .ok () t)
    (hfinds : ∀ k < acceptingSockets, (acceptSockets load 0 (fun _ => guppyFrom address)
      ((List.range acceptingSockets).take k) (pollAll datagramReady s)).returnsIn
        (·.findsPort address) = true) :
    ∃ inputs, Runs (StepsWhere OneEndpointAnyway ServerStep) (.waiting remaining, s) inputs
      (.visiting 0 intMax (List.range t.clients.elements.length), clientsShuffle id t) := by
  obtain ⟨accepts, hrun⟩ := acceptSockets_runsWhere OneEndpointAnyway h
    fun before index rest u hsplit hbefore heard _ bytes other hreceived => by
      obtain ⟨-, rfl⟩ := Prod.mk.inj (Except.ok.inj hreceived)
      have hlength := congrArg List.length hsplit
      rw [List.length_range, List.length_append, List.length_cons] at hlength
      have hfound := hfinds before.length (by omega)
      rw [hsplit, List.take_left, hbefore] at hfound
      exact .of_findsPort hfound
  have hpoll := ServerStep.poll s remaining datagramReady 0 false false
  rw [hload] at hpoll
  exact ⟨_, .cons ⟨fun _ => trivial, hpoll⟩
    (hrun.append (.cons ⟨fun _ => trivial, .shuffle t 0 load id⟩ (.nil _)))⟩

/-- Clients on two hosts have sent the beginning of a request; the message of the second one is in the buffer
while the first one is visited. -/
theorem twoHosts_runs : ∃ inputs s remaining t,
    Runs (StepsWhere OneEndpointAnyway ServerStep) (startState listening) inputs
      (.visiting 0 intMax [0, 1], s) ∧
    s.visited 0 = 0 ∧ s.clients.elements.length = 2 ∧ s.shortRequestMessageOwner = some (s.pointer 1) ∧
    (s.poll 16).revents.pollIn = true ∧ (s.client 0).acceptingSocket = 16 ∧
    getMakesSenseToParse s 0 = false ∧ getMakesSenseToSend s 0 = false ∧
    serverProcessClient 0 0 intMax quietVisit 5 s = .ok remaining t := by
  set load : ServerLoad := ⟨false, false, false⟩
  set first : Address := ⟨false, 1, 2⟩
  set second : Address := ⟨false, 2, 2⟩
  have hall : ((List.range acceptingSockets).all fun k => (acceptSockets load 0 (fun _ => guppyFrom first)
        ((List.range acceptingSockets).take k) (pollAll datagramReady (.initial listening))).returnsIn
          (·.findsPort first)) = true ∧
      (acceptSockets load 0 (fun _ => guppyFrom first) (List.range acceptingSockets)
        (pollAll datagramReady (.initial listening))).returnsIn (fun u =>
          let v := clientsShuffle id u
          u.clients.elements.length = 1 ∧ v.visited 0 = 0 ∧ v.takesRequest 0 0 grantAll = true ∧
          v.shortRequestMessageOwner = some (v.pointer 0) ∧
          (serverProcessClient 0 0 intMax quietVisit 5 v).returnsIn (fun w =>
            let x := clientsRemoveFinalized w
            x.load false false = load ∧
            ((List.range acceptingSockets).all fun k => (acceptSockets load 0 (fun _ => guppyFrom second)
              ((List.range acceptingSockets).take k) (pollAll datagramReady x)).returnsIn
                (·.findsPort second)) = true ∧
            (acceptSockets load 0 (fun _ => guppyFrom second) (List.range acceptingSockets)
              (pollAll datagramReady x)).returnsIn (fun y =>
                let s := clientsShuffle id y
                y.clients.elements.length = 2 ∧ s.visited 0 = 0 ∧
                s.shortRequestMessageOwner = some (s.pointer 1) ∧
                (s.poll 16).revents.pollIn = true ∧ (s.client 0).acceptingSocket = 16 ∧
                getMakesSenseToParse s 0 = false ∧ getMakesSenseToSend s 0 = false ∧
                (serverProcessClient 0 0 intMax quietVisit 5 s).returnsIn (fun _ => true) = true) = true)
            = true) = true := by
    decide +kernel
  obtain ⟨hfinds, hpass⟩ := hall
  -- the first pass, with the visit of the first client
  obtain ⟨_, u, haccept, hcheck⟩ := Outcome.exists_of_returnsIn hpass
  obtain ⟨hlength, hplace, htaken, hown, hvisit⟩ := of_decide_eq_true hcheck
  obtain ⟨remaining, w, hreturns, hcheck⟩ := Outcome.exists_of_returnsIn hvisit
  obtain ⟨htakes, hrequest⟩ := TakesMessage.of_takesRequest htaken
  obtain ⟨hload, hfinds', hpass'⟩ := of_decide_eq_true hcheck
  obtain ⟨inputs, hrun⟩ := untilVisits_runs intMax rfl haccept fun k hk =>
    List.all_eq_true.mp hfinds k (List.mem_range.mpr hk)
  rw [hlength] at hrun
  -- the second pass, up to its visits
  obtain ⟨_, y, haccept', hcheck⟩ := Outcome.exists_of_returnsIn hpass'
  obtain ⟨hlength', hplace', howner, hready, hsocket, hparse, hsend, hvisit'⟩ := of_decide_eq_true hcheck
  obtain ⟨remaining', t, hreturns', -⟩ := Outcome.exists_of_returnsIn hvisit'
  obtain ⟨inputs', hrun'⟩ := untilVisits_runs remaining hload haccept' fun k hk =>
    List.all_eq_true.mp hfinds' k (List.mem_range.mpr hk)
  rw [hlength'] at hrun'
  have hmeets : OneEndpointAnyway (.visiting 0 intMax [0], clientsShuffle id u) (.visit quietVisit 5) := by
    refine fun heard => ⟨fun _ => ?_, fun hnot => ?_⟩
    · rw [hplace]
      exact ⟨htakes, .inl hrequest⟩
    · rw [hplace] at hnot
      exact absurd hown hnot
  have hvisited : ServerStep (.visiting 0 intMax [0], clientsShuffle id u) (.visit quietVisit 5)
      (.visiting 0 remaining [], w) := .visit (by rw [hplace]; exact hreturns)
  have hsteps := hrun.append (.cons ⟨hmeets, hvisited⟩ (.cons ⟨fun _ => trivial, .remove w 0 remaining⟩ hrun'))
  refine ⟨_, _, remaining', t, hsteps, hplace', ?_, howner, hready, hsocket, hparse, hsend, hreturns'⟩
  rw [length_clientsShuffle, hlength']

/-- A client talks twice from one port, and rests while the message of another one is in the buffer. -/
theorem serverRun_datagrams_two :
    (∃ s t, s.clients.elements.length = 1 ∧
      serverAcceptMessage 16 ⟨false, false, false⟩ 0 (datagramFrom 2 (ascii "hello")).message s
        = .ok () t ∧
      t.shortRequestMessageOwner = some (t.pointer 0) ∧ (t.client 0).address = ⟨false, 1, 2⟩) ∧
    ∃ inputs s heard input state', let state := ((Phase.visiting 0 intMax [0, 1], s), heard)
      Runs (StepsWhere OneEndpoint DatagramStep) (startState listening, .nothing) inputs state ∧
      StepsWhere OneEndpoint DatagramStep state input state' ∧ s.visited 0 = 0 ∧
      s.shortRequestMessageOwner = some (s.pointer 1) ∧ s.Hears 0 ∧ LeftAlone 0 state input state' := by
  refine ⟨?_, ?_⟩
  · have hpass : (serverProcessClients (datagramPass 2 (ascii "guppy://")) (.initial listening)).returnsIn
        (fun s => (s.shortRequestMessageOwner = none ∧ s.clients.elements.length = 1 ∧
            findGuppy ⟨false, 1, 2⟩ s.clients.elements = some 0 ∧ (s.client 0).address.port = 2) ∧
          (serverAcceptMessage 16 ⟨false, false, false⟩ 0 (datagramFrom 2 (ascii "hello")).message
            s).returnsIn (fun t => t.shortRequestMessageOwner = some (t.pointer 0)) = true) = true := by
      decide +kernel
    obtain ⟨_, s, -, hcheck⟩ := Outcome.exists_of_returnsIn hpass
    obtain ⟨⟨hfree, hlength, hfound, hport⟩, haccepts⟩ := of_decide_eq_true hcheck
    obtain ⟨_, t, haccept, hattached⟩ := Outcome.exists_of_returnsIn haccepts
    have howner := of_decide_eq_true hattached
    have hfinds : s.FindsPort ⟨false, 1, 2⟩ := by
      intro i hi
      rw [← Option.some.inj (hfound.symm.trans hi)]
      exact hport
    have hright := ((serverRun_datagrams (show listening.elements.length = acceptingSockets from rfl)).1
      s 16 ⟨false, false, false⟩ 0 (datagramFrom 2 (ascii "hello")).message (ascii "hello") _ hfree
      rfl).of_eq_ok haccept
    exact ⟨s, t, hlength, haccept, howner, hright.mpr hfinds 0 (by omega) howner⟩
  · obtain ⟨inputs, s, remaining, t, hrun, hplace, hlength, howner, hready, hsocket, hparse, hsend,
      hreturns⟩ := twoHosts_runs
    obtain ⟨heard, hrun⟩ := heard_runs hrun .nothing
    have hmessage : acceptingSocketIsMessage (s.client 0).acceptingSocket = true := by
      rw [hsocket]
      rfl
    have hrests : s.Rests 0 0 := ⟨hparse, fun hsense => by rw [hsend] at hsense; cases hsense⟩
    have hothers : s.shortRequestMessageOwner ≠ some (s.pointer 0) := by
      rw [howner, ne_eq, Option.some.injEq, Server.pointer_inj]
      exact Nat.one_ne_zero
    have hstep : StepsWhere OneEndpoint DatagramStep ((.visiting 0 intMax [0, 1], s), heard)
        (.visit quietVisit 5) ((.visiting 0 remaining [1], t), heard) := by
      refine ⟨⟨fun howns => ?_, fun _ _ _ => ?_⟩, .visit ?_, rfl⟩
      · rw [hplace] at howns
        exact absurd howns hothers
      · rw [hplace]
        exact hrests
      · rw [hplace]
        exact hreturns
    exact ⟨inputs, s, heard, _, _, hrun, hstep, hplace, howner, ⟨16, .inr ⟨by decide, rfl⟩, hready⟩,
      (serverRun_datagrams rfl).2 inputs _ hrun _ _ hstep 0 (by rw [hlength]; decide) hmessage⟩

/-- A datagram from another port of its host is attached to a client. -/
theorem serverRun_datagrams_other : ¬ ∀ (polls : Buffer Poll),
    polls.elements.length = acceptingSockets → ∀ inputs remaining s,
      Runs ServerStep (startState polls) inputs (.waiting remaining, s) →
        ∀ index load now answers bytes address, s.shortRequestMessageOwner = none →
          answers.received = .ok (bytes, address) →
            (serverAcceptMessage index load now answers s).Keeps fun t => AttachedRightly address s t := by
  intro hclaim
  have hpass : (serverProcessClients (datagramPass 2 (ascii "guppy://")) (.initial listening)).returnsIn
      (fun s => s.shortRequestMessageOwner = none ∧
        (serverAcceptMessage 16 ⟨false, false, false⟩ 0 (datagramFrom 3 (ascii "hello")).message
          s).returnsIn (fun t => 0 < s.clients.elements.length ∧
            t.shortRequestMessageOwner = some (t.pointer 0) ∧
            (t.client 0).address ≠ ⟨false, 1, 3⟩) = true) = true := by
    decide +kernel
  obtain ⟨remaining, s, hreturns, hcheck⟩ := Outcome.exists_of_returnsIn hpass
  obtain ⟨hfree, haccepts⟩ := of_decide_eq_true hcheck
  obtain ⟨_, t, haccept, hattached⟩ := Outcome.exists_of_returnsIn haccepts
  obtain ⟨hlength, howner, haddress⟩ := of_decide_eq_true hattached
  obtain ⟨inputs, hrun⟩ := serverProcessClients_runs hreturns intMax
  have hright := (hclaim listening rfl inputs remaining s hrun 16 ⟨false, false, false⟩ 0 _ _ _ hfree
    rfl).of_eq_ok haccept
  exact haddress (hright 0 hlength howner)

end Twinkleshine
