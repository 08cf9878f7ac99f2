import Mathlib.Data.List.GetD
import Twinkleshine.Server.HighLevel

/-!
# Who is admitted

`ConnectionServed` and `MessageServed` list all that the service of a listening socket can do: the
tables stay as they are, or one client is appended to them, or a message is given to a client that is
there. Reference: `source/server/accept.c`.
-/

namespace Twinkleshine

open Library

/-! ## Tables that grow or not -/

/-- A pointer into a table in this block stays where it is, or is computed again. -/
def ClientPointer.Kept (block : ℕ) (owner owner' : Option ClientPointer) : Prop :=
  owner' = owner ∨ owner' = owner.map (·.moveTo block)

/-- Neither table changed. As many clients were born, and descriptors with these numbers closed. -/
structure Unadmitted (s t : Server) (born : ℕ) (closed : List ℕ) : Prop where
  clients : t.clients.elements = s.clients.elements
  block : t.clients.p = s.clients.p
  polls : t.polls.elements = s.polls.elements
  owner : ClientPointer.Kept s.clients.p s.shortResponseStreamOwner t.shortResponseStreamOwner
  messageOwner : ClientPointer.Kept s.clients.p s.shortRequestMessageOwner t.shortRequestMessageOwner
  stream : t.shortResponseStream = s.shortResponseStream
  buffers : t.buffers = s.buffers
  births : t.births = s.births + born
  told : ∃ more, t.effects = s.effects ++ more ∧ closedIn more = closed

theorem Unadmitted.refl (s : Server) : Unadmitted s s 0 [] :=
  ⟨rfl, rfl, rfl, .inl rfl, .inl rfl, rfl, rfl, rfl, [], (List.append_nil _).symm, rfl⟩

/-- One client was appended with its poll, and the owner of the short response stream moved with the
table. -/
structure Admitted (s t : Server) (client : Client) (poll : Poll) : Prop where
  clients : t.clients.elements = s.clients.elements ++ [client]
  polls : t.polls.elements = s.polls.elements ++ [poll]
  owner : t.shortResponseStreamOwner = s.shortResponseStreamOwner.map (·.moveTo t.clients.p)
  stream : t.shortResponseStream = s.shortResponseStream
  buffers : t.buffers = s.buffers
  births : t.births = s.births + 1
  effects : t.effects = s.effects

section

variable {s t : Server} {client : Client} {poll : Poll}

/-- Those who are there stay under their indices. -/
theorem Admitted.client_of_lt (h : Admitted s t client poll) {i : ℕ}
    (hi : i < s.clients.elements.length) : t.client i = s.client i := by
  rw [Server.client, h.clients, List.getD_append _ _ _ _ hi]
  rfl

theorem Admitted.client_length (h : Admitted s t client poll) :
    t.client s.clients.elements.length = client := by
  rw [Server.client, h.clients, List.getD_append_right _ _ _ _ (Nat.le_refl _), Nat.sub_self]
  rfl

end

/-! ## Appending -/

/-- A poll is appended, or nothing is. -/
theorem pollsAppend_meets (realloc : Option ℕ) (poll : Poll) (s : Server) :
    (pollsAppend realloc poll s).Meets True
      (fun _ t => s.polls.Grants 1 realloc ∧ ∃ polls, t = { s with polls := polls } ∧
        polls.elements = s.polls.elements ++ [poll])
      fun _ t => ¬ s.polls.Grants 1 realloc ∧ t = s := by
  have happend := genericBufferAppend_meets realloc s.polls [poll]
  unfold pollsAppend
  generalize genericBufferAppend realloc s.polls [poll] = result at happend ⊢
  rcases result with ⟨_, polls⟩ | ⟨e, polls⟩ | _
  · exact ⟨happend.1, polls, rfl, happend.2⟩
  · exact ⟨happend.1, by rw [happend.2]⟩
  · exact trivial

/-- The pointers into the table of clients are computed again for this table. -/
def Server.withClients (s : Server) (clients : Buffer Client) : Server :=
  { s with
    clients := clients
    shortRequestMessageOwner := s.shortRequestMessageOwner.map (·.moveTo clients.p)
    shortResponseStreamOwner := s.shortResponseStreamOwner.map (·.moveTo clients.p) }

/-- A client is appended, or the table stays as it is. -/
theorem clientsAppend_meets (realloc : Option ℕ) (client : Client) (s : Server) :
    (clientsAppend realloc client s).Meets True
      (fun _ t => s.clients.Grants 1 realloc ∧ ∃ clients, t = s.withClients clients ∧
        clients.elements = s.clients.elements ++ [client])
      fun _ t => ¬ s.clients.Grants 1 realloc ∧ t = s.withClients s.clients := by
  have happend := genericBufferAppend_meets realloc s.clients [client]
  unfold clientsAppend
  generalize genericBufferAppend realloc s.clients [client] = result at happend ⊢
  rcases result with ⟨_, clients⟩ | ⟨e, clients⟩ | _
  · exact ⟨happend.1, clients, rfl, happend.2⟩
  · exact ⟨happend.1, by rw [happend.2]; rfl⟩
  · exact trivial

/-- The sizes of both tables are restored, whatever was appended to the polls. -/
def Server.restore (s : Server) (oldSize : ℕ) : Server :=
  { s with
    polls.elements := s.polls.elements.take (oldSize + acceptingSockets)
    clients.elements := s.clients.elements.take oldSize }

/-- A client was not appended yet, though its poll may be. -/
structure Attempted (s t : Server) (born : ℕ) : Prop where
  clients : t.clients = s.clients
  polls : ∃ more, t.polls.elements = s.polls.elements ++ more
  owner : ClientPointer.Kept s.clients.p s.shortResponseStreamOwner t.shortResponseStreamOwner
  messageOwner : ClientPointer.Kept s.clients.p s.shortRequestMessageOwner t.shortRequestMessageOwner
  stream : t.shortResponseStream = s.shortResponseStream
  buffers : t.buffers = s.buffers
  births : t.births = s.births + born
  effects : t.effects = s.effects

variable {s : Server}

/-- Nothing but the number of births changed yet. -/
theorem Attempted.start (s : Server) (born : ℕ) :
    Attempted s { s with births := s.births + born } born :=
  ⟨rfl, ⟨[], (List.append_nil _).symm⟩, .inl rfl, .inl rfl, rfl, rfl, rfl, rfl⟩

/-- What a failed accept restores are the tables from before. -/
theorem Attempted.restore {t : Server} {born : ℕ} (h : Attempted s t born)
    (hsize : s.polls.elements.length = s.clients.elements.length + acceptingSockets) :
    Unadmitted s (t.restore s.clients.elements.length) born [] := by
  obtain ⟨more, hmore⟩ := h.polls
  refine ⟨?_, ?_, ?_, h.owner, h.messageOwner, h.stream, h.buffers, h.births, [], ?_, rfl⟩
  · rw [Server.restore, h.clients, List.take_length]
  · rw [Server.restore, h.clients]
  · rw [Server.restore, hmore, ← hsize, List.take_left]
  · rw [Server.restore, h.effects, List.append_nil]

/-- Something happened to the outside. -/
theorem Unadmitted.emit {t : Server} {born : ℕ} {closed : List ℕ} (h : Unadmitted s t born closed)
    (effect : Effect) : Unadmitted s (t.emit effect) born (closed ++ closedIn [effect]) := by
  obtain ⟨more, hmore, hclosed⟩ := h.told
  refine ⟨h.clients, h.block, h.polls, h.owner, h.messageOwner, h.stream, h.buffers, h.births,
    more ++ [effect], ?_, ?_⟩
  · rw [Server.emit, hmore, List.append_assoc]
  · rw [closedIn_append, hclosed]

/-! ## Connections -/

/-- Whether a listening socket talks through OpenSSL. -/
def acceptingSocketIsEncrypted (index : ℕ) : Bool :=
  acceptingSocketIsHttps index || acceptingSocketIsGemini index

/-- A connection comes and is not refused, all calls that set it up succeed, and both tables have room for
it. -/
structure AcceptAnswers.Admits (answers : AcceptAnswers) (index : ℕ) (load : ServerLoad) (now : ℤ)
    (s : Server) : Prop where
  fcntl : answers.fcntl = true
  admits : load.refuses = false
  made : ∃ fd address client, answers.accepted = some (fd, address) ∧
    initializeClient index answers.cryptography (newClient index address now s.births) = .ok () client
  polls : s.polls.Grants 1 answers.polls
  clients : s.clients.Grants 1 answers.clients

/-- What `server_accept_connection` can do. -/
inductive ConnectionServed (index : ℕ) (load : ServerLoad) (now : ℤ) (answers : AcceptAnswers)
    (s t : Server) : Prop where
  | failed (accepted : answers.accepted = none) (same : Unadmitted s t 0 [])
  /-- The connection is refused, or given up, and closed. -/
  | closed (accepted : answers.accepted.isSome = true)
      (kept : ¬ (answers.fcntl = true ∧ load.refuses = true ∧
        acceptingSocketIsEncrypted index = true))
      (same : Unadmitted s t 1 [s.births]) (rejected : ¬ answers.Admits index load now s)
  /-- The connection is refused and forgotten. -/
  | forgotten (accepted : answers.accepted.isSome = true) (fcntl : answers.fcntl = true)
      (refuses : load.refuses = true) (encrypted : acceptingSocketIsEncrypted index = true)
      (same : Unadmitted s t 1 [])
  | connected {fd : ℕ} {address : Address} {client : Client}
      (accepted : answers.accepted = some (fd, address)) (fcntl : answers.fcntl = true)
      (admits : load.refuses = false)
      (made : initializeClient index answers.cryptography (newClient index address now s.births)
        = .ok () client)
      (admitted : Admitted s t client ⟨some fd, .none, .none, s.births⟩)
      (messageOwner : t.shortRequestMessageOwner
        = s.shortRequestMessageOwner.map (·.moveTo t.clients.p))
      (grants : s.polls.Grants 1 answers.polls ∧ s.clients.Grants 1 answers.clients)

/-- A connection that is given up is closed. -/
theorem acceptFailure_keeps {t : Server} {born : ℕ} (h : Attempted s t born)
    (hsize : s.polls.elements.length = s.clients.elements.length + acceptingSockets)
    (opened : Bool) (birth : ℕ) (e : ExError) :
    (acceptFailure s.clients.elements.length opened birth e t).Keeps fun u =>
      Unadmitted s u born (if opened then [birth] else []) := by
  have hrestored : Unadmitted s ((if opened then t.emit (.closed birth) else t).restore
      s.clients.elements.length) born (if opened then [birth] else []) := by
    by_cases hopened : opened = true
    · rw [if_pos hopened, if_pos hopened]
      exact (h.restore hsize).emit (.closed birth)
    · rw [if_neg hopened, if_neg hopened]
      exact h.restore hsize
  unfold acceptFailure
  by_cases hdie : e.has partialEefDie = true
  · rw [if_pos hdie]
    exact hrestored
  rw [if_neg hdie]
  by_cases hlog : e.has partialEefLog = true
  · rw [if_pos hlog]
    have hprinted := hrestored.emit (.errorPrinted e.error)
    rw [show closedIn [Effect.errorPrinted e.error] = [] from rfl, List.append_nil] at hprinted
    exact hprinted
  · rw [if_neg hlog]
    exact hrestored

/-- The refusal of a connection closes it, unless it would have to be encrypted. -/
theorem serverSendLowResourcesConnection_unadmitted {t : Server} {born : ℕ}
    (h : Unadmitted s t born []) (index birth : ℕ) (refusal : Option ℕ) (fixed : FixedResponse) :
    Unadmitted s (serverSendLowResourcesConnection index birth refusal fixed t) born
      (if acceptingSocketIsEncrypted index then [] else [birth]) := by
  unfold serverSendLowResourcesConnection acceptingSocketIsEncrypted
  by_cases hencrypted : (acceptingSocketIsHttps index || acceptingSocketIsGemini index) = true
  · rw [if_pos hencrypted, if_pos hencrypted]
    exact h
  rw [if_neg hencrypted, if_neg hencrypted]
  have hclosed := (h.emit (.refused ((failsafeText index fixed).take (refusal.getD 0)))).emit
    (.closed birth)
  dsimp only
  split_ifs
  · exact hclosed
  · exact hclosed.emit (.errorPrinted "send() failed")

/-- A client that is made is the one it was made for, whether it is encrypted or not. -/
theorem initializeClient_identity {index : ℕ} {answers : InitializeAnswers} {client d : Client}
    (h : initializeClient index answers client = .ok () d) : client.SameIdentity d := by
  unfold initializeClient at h
  by_cases hencrypted : (acceptingSocketIsHttps index || acceptingSocketIsGemini index) = true
  · rw [if_pos hencrypted] at h
    exact ((cryptographyInitialize_same answers).of_eq_ok h).1.toSameIdentity
  · rw [if_neg hencrypted] at h
    obtain ⟨-, rfl⟩ := Outcome.ok.inj h
    exact ⟨rfl, rfl, rfl, rfl, rfl⟩

/-- All that `server_accept_connection` can do, whether it returns or fails. -/
theorem serverAcceptConnection_cases
    (hsize : s.polls.elements.length = s.clients.elements.length + acceptingSockets) (index : ℕ)
    (load : ServerLoad) (now : ℤ) (answers : AcceptAnswers) :
    (serverAcceptConnection index load now answers s).Keeps fun t =>
      ConnectionServed index load now answers s t := by
  unfold serverAcceptConnection
  rcases hanswer : answers.accepted with _ | ⟨fd, address⟩
  · exact (acceptFailure_keeps (.start s 0) hsize false s.births _).mono fun _ => .failed hanswer
  have haccepted : answers.accepted.isSome = true := by rw [hanswer]; rfl
  -- a failure after accept() closes what was accepted
  have hfailure : ¬ (answers.fcntl = true ∧ load.refuses = true ∧
      acceptingSocketIsEncrypted index = true) → ¬ answers.Admits index load now s →
      ∀ e t, Attempted s t 1 →
      (acceptFailure s.clients.elements.length true s.births e t).Keeps fun t =>
        ConnectionServed index load now answers s t := fun hkept hrejected e t ht =>
    (acceptFailure_keeps ht hsize true s.births e).mono fun _ h => .closed haccepted hkept h hrejected
  have hcounted := Attempted.start s 1
  dsimp only
  set counted : Server := { s with births := s.births + 1 }
  -- the checks, in the order of the source
  by_cases hfcntl : answers.fcntl = true
  swap
  · rw [if_pos hfcntl]
    exact hfailure (hfcntl ·.1) (hfcntl ·.fcntl) _ _ hcounted
  rw [if_neg (not_not.mpr hfcntl)]
  by_cases hrefuses : load.refuses = true
  · rw [if_pos hrefuses]
    have hborn : Unadmitted s counted 1 [] :=
      ⟨rfl, rfl, rfl, .inl rfl, .inl rfl, rfl, rfl, rfl, [], (List.append_nil _).symm, rfl⟩
    have hsent := serverSendLowResourcesConnection_unadmitted hborn index s.births answers.refusal
      (serverLowResourcesResponse load)
    by_cases hencrypted : acceptingSocketIsEncrypted index = true
    · rw [if_pos hencrypted] at hsent
      exact ConnectionServed.forgotten haccepted hfcntl hrefuses hencrypted hsent
    · rw [if_neg hencrypted] at hsent
      refine ConnectionServed.closed haccepted (hencrypted ·.2.2) hsent fun h => ?_
      rw [h.admits] at hrefuses
      cases hrefuses
  · rw [if_neg hrefuses]
    have hgiveUp := hfailure (hrefuses ·.2.1)
    rcases hmade : initializeClient index answers.cryptography (newClient index address now s.births)
      with ⟨_, client⟩ | ⟨e, client⟩ | _
    · -- the two appends: when the second fails, the first is taken back
      refine (pollsAppend_meets answers.polls _ counted).handle (fun _ t ht => ?_) fun e t ht => ?_
      · obtain ⟨hroom, polls, rfl, hpolls⟩ := ht
        refine (clientsAppend_meets answers.clients client _).handle (fun _ t ht => ?_)
          fun e t ht => ?_
        · obtain ⟨hroom', clients, rfl, hclients⟩ := ht
          exact ConnectionServed.connected hanswer hfcntl (Bool.eq_false_iff.mpr hrefuses) hmade
            ⟨hclients, hpolls, rfl, rfl, rfl, rfl, rfl⟩ rfl ⟨hroom, hroom'⟩
        · rw [ht.2]
          exact hgiveUp (ht.1 ·.clients) _ _ ⟨rfl, ⟨_, hpolls⟩, .inr rfl, .inr rfl, rfl, rfl, rfl, rfl⟩
      · rw [ht.2]
        exact hgiveUp (ht.1 ·.polls) _ _ hcounted
    · refine hgiveUp (fun h => ?_) e _ hcounted
      -- the set-up of OpenSSL has failed
      obtain ⟨fd', address', made, haccepts, hmakes⟩ := h.made
      obtain ⟨rfl, rfl⟩ := Prod.mk.inj (Option.some.inj (hanswer.symm.trans haccepts))
      rw [hmade] at hmakes
      cases hmakes
    · exact trivial

/-! ## Messages -/

/-- The message was given to client `i`. -/
structure Attached (bytes : List UInt8) (i : ℕ) (s t : Server) : Prop where
  message : t.shortRequestMessage = memcpy s.shortRequestMessage 0 (bytes.take 2048)
  owner : t.shortRequestMessageOwner = some (t.pointer i)
  size : t.shortRequestMessageSize = (bytes.take 2048).length

/-- A client that is there has a message. -/
structure Known (i : ℕ) (s t : Server) : Prop where
  clients : t.clients = s.clients
  polls : t.polls.elements = s.polls.elements.set (acceptingSockets + i)
    { s.ownPoll i with revents.pollIn := true }
  owner : t.shortResponseStreamOwner = s.shortResponseStreamOwner
  stream : t.shortResponseStream = s.shortResponseStream
  buffers : t.buffers = s.buffers
  births : t.births = s.births
  effects : t.effects = s.effects

/-- The client that is made for a message. -/
def newMessageClient (index : ℕ) (address : Address) (now : ℤ) (birth : ℕ) : Client :=
  { newClient index address now birth with cryptographyState := .operational }

/-- A datagram begins a request and is not refused, and both tables have room for a client. -/
structure AcceptMessageAnswers.Creates (answers : AcceptMessageAnswers) (load : ServerLoad)
    (bytes : List UInt8) (s : Server) : Prop where
  request : guppyScheme.length ≤ (bytes.take 2048).length ∧
    (memcpy s.shortRequestMessage 0 (bytes.take 2048)).take guppyScheme.length = guppyScheme
  admits : load.refuses = false
  polls : s.polls.Grants 1 answers.polls
  clients : s.clients.Grants 1 answers.clients

/-- What `server_accept_message` can do. -/
inductive MessageServed (index : ℕ) (load : ServerLoad) (now : ℤ) (answers : AcceptMessageAnswers)
    (s t : Server) : Prop where
  | failed (same : t = s) (unreceived : ∃ e, answers.received = .error e)
  /-- The message is refused, or there is no memory for its client. -/
  | refused {born : ℕ} (same : Unadmitted s t born [])
      (rejected : ∃ bytes address, answers.received = .ok (bytes, address) ∧
        findGuppy address s.clients.elements = none ∧ ¬ answers.Creates load bytes s)
  | known {bytes : List UInt8} {address : Address} {i : ℕ}
      (received : answers.received = .ok (bytes, address))
      (found : findGuppy address s.clients.elements = some i) (same : Known i s t)
      (attached : Attached bytes i s t)
  | created {bytes : List UInt8} {address : Address}
      (received : answers.received = .ok (bytes, address))
      (unknown : findGuppy address s.clients.elements = none)
      (request : guppyScheme.length ≤ (bytes.take 2048).length ∧
        (memcpy s.shortRequestMessage 0 (bytes.take 2048)).take guppyScheme.length = guppyScheme)
      (admits : load.refuses = false)
      (admitted : Admitted s t (newMessageClient index address now s.births)
        ⟨none, .none, ⟨true, false, false, false⟩, s.births⟩)
      (attached : Attached bytes s.clients.elements.length s t)
      (grants : s.polls.Grants 1 answers.polls ∧ s.clients.Grants 1 answers.clients)

/-- What was received does not matter to the tables. -/
theorem Unadmitted.of_receiveMessage {bytes : List UInt8} {t : Server} {born : ℕ} {closed : List ℕ}
    (h : Unadmitted (receiveMessage bytes s) t born closed) : Unadmitted s t born closed :=
  ⟨h.clients, h.block, h.polls, h.owner, h.messageOwner, h.stream, h.buffers, h.births, h.told⟩

/-- A client is made for a message, or the tables stay as they are. -/
theorem serverCreateMessageClient_cases
    (hsize : s.polls.elements.length = s.clients.elements.length + acceptingSockets) (index : ℕ)
    (address : Address) (size : ℕ) (now : ℤ) (answers : AcceptMessageAnswers) :
    (serverCreateMessageClient index address size now answers s).Meets True
      (fun _ t => Admitted s t (newMessageClient index address now s.births)
          ⟨none, .none, ⟨true, false, false, false⟩, s.births⟩ ∧
        t.shortRequestMessage = s.shortRequestMessage ∧
        t.shortRequestMessageOwner = some (t.pointer s.clients.elements.length) ∧
        t.shortRequestMessageSize = size ∧
        s.polls.Grants 1 answers.polls ∧ s.clients.Grants 1 answers.clients)
      fun _ t => Unadmitted s t 1 [] ∧
        ¬ (s.polls.Grants 1 answers.polls ∧ s.clients.Grants 1 answers.clients) := by
  unfold serverCreateMessageClient
  refine (pollsAppend_meets answers.polls _ _).handle (fun _ t ht => ?_) fun e t ht => ?_
  · obtain ⟨hroom, polls, rfl, hpolls⟩ := ht
    refine (clientsAppend_meets answers.clients _ _).handle (fun _ t ht => ?_) fun e t ht => ?_
    · obtain ⟨hroom', clients, rfl, hclients⟩ := ht
      refine ⟨⟨hclients, hpolls, rfl, rfl, rfl, rfl, rfl⟩, rfl, ?_, rfl, hroom, hroom'⟩
      have hlast : clients.elements.length - 1 = s.clients.elements.length := by
        rw [hclients, List.length_append]
        rfl
      exact congrArg (fun i => some (ClientPointer.mk clients.p i)) hlast
    · rw [ht.2]
      exact ⟨Attempted.restore ⟨rfl, ⟨_, hpolls⟩, .inr rfl, .inr rfl, rfl, rfl, rfl, rfl⟩ hsize,
        fun h => ht.1 h.2⟩
  · rw [ht.2]
    exact ⟨(Attempted.start s 1).restore hsize, fun h => ht.1 h.1⟩

/-- All that `server_accept_message` can do, whether it returns or fails. -/
theorem serverAcceptMessage_cases
    (hsize : s.polls.elements.length = s.clients.elements.length + acceptingSockets) (index : ℕ)
    (load : ServerLoad) (now : ℤ) (answers : AcceptMessageAnswers) :
    (serverAcceptMessage index load now answers s).Keeps fun t =>
      MessageServed index load now answers s t := by
  unfold serverAcceptMessage
  rcases hreceived : answers.received with errno | ⟨bytes, address⟩
  · dsimp only
    split_ifs
    · exact MessageServed.failed rfl ⟨errno, hreceived⟩
    · exact MessageServed.failed rfl ⟨errno, hreceived⟩
  dsimp only
  have hsame : Unadmitted (receiveMessage (bytes.take 2048) s) (receiveMessage (bytes.take 2048) s)
      0 [] := .refl _
  rcases hfind : findGuppy address (receiveMessage (bytes.take 2048) s).clients.elements with _ | i
  · dsimp only
    split_ifs with hrogue hrefuses
    · refine MessageServed.refused (hsame.emit (.refused _)).of_receiveMessage
        ⟨bytes, address, hreceived, hfind, fun h => ?_⟩
      exact hrogue.elim (Nat.not_lt.mpr h.request.1) (not_not.mpr h.request.2)
    · refine MessageServed.refused (hsame.emit (.refused _)).of_receiveMessage
        ⟨bytes, address, hreceived, hfind, fun h => ?_⟩
      rw [h.admits] at hrefuses
      cases hrefuses
    · have hrequest := not_or.mp hrogue
      refine (serverCreateMessageClient_cases (s := receiveMessage (bytes.take 2048) s) hsize index
        address _ now answers).mono (fun _ t ht => ?_) fun _ t ht => .refused ht.1.of_receiveMessage
          ⟨bytes, address, hreceived, hfind, fun h => ht.2 ⟨h.polls, h.clients⟩⟩
      obtain ⟨⟨hclients, hpolls, howner, hstream, hbuffers, hbirths, heffects⟩, hmessage, hattached,
        hsize', hgrants⟩ := ht
      exact .created hreceived hfind ⟨Nat.le_of_not_lt hrequest.1, not_not.mp hrequest.2⟩
        (Bool.eq_false_iff.mpr hrefuses)
        ⟨hclients, hpolls, howner, hstream, hbuffers, hbirths, heffects⟩ ⟨hmessage, hattached, hsize'⟩
        hgrants
  · exact MessageServed.known hreceived hfind ⟨rfl, rfl, rfl, rfl, rfl, rfl, rfl⟩ ⟨rfl, rfl, rfl⟩

/-! ## Listening sockets -/

/-- Whether `accept()` is called for a listening socket. -/
def Server.acceptsAt (s : Server) (index : ℕ) : Bool :=
  !((s.poll index).revents.pollErr || (s.poll index).revents.pollHup) &&
    (s.poll index).revents.pollIn && acceptingSocketIsConnection index

/-- What the service of a listening socket can do. -/
inductive SocketServed (index : ℕ) (load : ServerLoad) (now : ℤ) (answers : SocketAnswers)
    (s t : Server) : Prop where
  | idle (same : t = s) (unasked : s.acceptsAt index = false)
  | connection (asked : s.acceptsAt index = true)
      (served : ConnectionServed index load now answers.connection s t)
  | message (ready : (s.poll index).revents.pollIn = true)
      (isMessage : acceptingSocketIsConnection index = false)
      (free : s.shortRequestMessageOwner = none)
      (served : MessageServed index load now answers.message s t)

theorem Server.acceptsAt_iff {index : ℕ} : s.acceptsAt index = true ↔
    ((s.poll index).revents.pollErr = false ∧ (s.poll index).revents.pollHup = false) ∧
      (s.poll index).revents.pollIn = true ∧ acceptingSocketIsConnection index = true := by
  simp [Server.acceptsAt, and_assoc]

theorem serverAcceptSocket_cases
    (hsize : s.polls.elements.length = s.clients.elements.length + acceptingSockets) (index : ℕ)
    (load : ServerLoad) (now : ℤ) (answers : SocketAnswers) :
    (serverAcceptSocket load now answers index s).Keeps fun t =>
      SocketServed index load now answers s t := by
  unfold serverAcceptSocket
  dsimp only
  by_cases hfailed : ((s.poll index).revents.pollErr || (s.poll index).revents.pollHup) = true
  · rw [if_pos hfailed]
    exact SocketServed.idle rfl (by simp [Server.acceptsAt, hfailed])
  rw [if_neg hfailed]
  by_cases hready : (s.poll index).revents.pollIn = true
  swap
  · rw [if_pos hready]
    exact SocketServed.idle rfl (by simp [Server.acceptsAt, hready])
  rw [if_neg (not_not.mpr hready)]
  by_cases hconnection : acceptingSocketIsConnection index = true
  · rw [if_pos hconnection]
    have hasked : s.acceptsAt index = true := by
      simp [Server.acceptsAt, hready, hconnection, Bool.eq_false_iff.mpr hfailed]
    exact (serverAcceptConnection_cases hsize index load now answers.connection).mono fun _ h =>
      .connection hasked h
  rw [if_neg hconnection]
  by_cases hfree : s.shortRequestMessageOwner = none
  · rw [if_pos hfree]
    exact (serverAcceptMessage_cases hsize index load now answers.message).mono fun _ h =>
      .message hready (Bool.eq_false_iff.mpr hconnection) hfree h
  · rw [if_neg hfree]
    exact SocketServed.idle rfl (by simp [Server.acceptsAt, hconnection])

end Twinkleshine
