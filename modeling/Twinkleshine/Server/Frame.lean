import Twinkleshine.Server.HighLevel

/-!
# What serving a client leaves alone

A client is served by functions that may change the client itself, the shared buffers, and the response
stream of the client that owns the short response stream; nothing else. `Serves` says so for what
happens while the client lives.
-/

namespace Twinkleshine

open Library

/-! ## A client that lives -/

/-- Client `i` was served: the tables are the same, and so are the other clients, except for their
response streams. -/
structure Serves (i : ℕ) (s t : Server) : Prop where
  block : t.clients.p = s.clients.p
  length : t.clients.elements.length = s.clients.elements.length
  polls : t.polls = s.polls
  births : t.births = s.births
  message : t.shortRequestMessage = s.shortRequestMessage
  messageOwner : t.shortRequestMessageOwner = s.shortRequestMessageOwner ∧
      t.shortRequestMessageSize = s.shortRequestMessageSize ∨
    s.shortRequestMessageOwner = some (s.pointer i) ∧ t.shortRequestMessageOwner = none
  self : (s.client i).SameIdentity (t.client i)
  others : ∀ j, j ≠ i → ∃ stream, t.client j = { s.client j with responseStream := stream }
  told : ∃ more, t.effects = s.effects ++ more ∧ closedIn more = []

namespace Serves

variable {i : ℕ} {s t u : Server}

theorem refl (i : ℕ) (s : Server) : Serves i s s :=
  ⟨rfl, rfl, rfl, rfl, rfl, .inl ⟨rfl, rfl⟩, .refl _, fun _ _ => ⟨_, rfl⟩,
    ⟨[], (List.append_nil _).symm, rfl⟩⟩

theorem trans (h : Serves i s t) (h' : Serves i t u) : Serves i s u := by
  obtain ⟨more, hmore, hclosed⟩ := h.told
  obtain ⟨more', hmore', hclosed'⟩ := h'.told
  refine ⟨h'.block.trans h.block, h'.length.trans h.length, h'.polls.trans h.polls,
    h'.births.trans h.births, h'.message.trans h.message, ?_, h.self.trans h'.self, ?_,
    more ++ more', ?_, ?_⟩
  · have hpointer : t.pointer i = s.pointer i := by rw [Server.pointer, Server.pointer, h.block]
    rcases h.messageOwner with ⟨howner, hsize⟩ | ⟨howner, hnone⟩
    · rcases h'.messageOwner with ⟨howner', hsize'⟩ | ⟨howner', hnone'⟩
      · exact .inl ⟨howner'.trans howner, hsize'.trans hsize⟩
      · exact .inr ⟨howner.symm.trans (howner'.trans (congrArg some hpointer)), hnone'⟩
    · rcases h'.messageOwner with ⟨howner', -⟩ | ⟨howner', -⟩
      · exact .inr ⟨howner, howner'.trans hnone⟩
      · rw [hnone] at howner'
        cases howner'
  · intro j hj
    obtain ⟨stream, hstream⟩ := h.others j hj
    obtain ⟨stream', hstream'⟩ := h'.others j hj
    exact ⟨stream', by rw [hstream', hstream]⟩
  · rw [hmore', hmore, List.append_assoc]
  · rw [closedIn_append, hclosed, hclosed']
    rfl

/-- Client `i` is written. -/
theorem setClient (client : Client) (hsame : (s.client i).SameIdentity client) :
    Serves i s (s.setClient i client) := by
  refine ⟨rfl, List.length_set, rfl, rfl, rfl, .inl ⟨rfl, rfl⟩, ?_, fun j hj => ?_,
    ⟨[], (List.append_nil _).symm, rfl⟩⟩
  · by_cases hi : i < s.clients.elements.length
    · rw [Server.client_setClient hi]
      exact hsame
    · rw [Server.setClient_of_length_le (Nat.not_lt.mp hi)]
      exact .refl _
  · exact ⟨_, Server.client_setClient_of_ne s (Ne.symm hj) client⟩

/-- Something happened that closes no descriptor. -/
theorem emit {effect : Effect} (h : closedIn [effect] = []) : Serves i s (s.emit effect) :=
  ⟨rfl, rfl, rfl, rfl, rfl, .inl ⟨rfl, rfl⟩, .refl _, fun _ _ => ⟨_, rfl⟩, ⟨[effect], rfl, h⟩⟩

/-- The shared buffers are written. -/
theorem short {stream : TextValue} {owner : Option ClientPointer} {buffers : InternalBuffers} :
    Serves i s { s with
      shortResponseStream := stream, shortResponseStreamOwner := owner, buffers := buffers } :=
  ⟨rfl, rfl, rfl, rfl, rfl, .inl ⟨rfl, rfl⟩, .refl _, fun _ _ => ⟨_, rfl⟩,
    ⟨[], (List.append_nil _).symm, rfl⟩⟩

/-- A computation on client `i`. -/
theorem onClient {ε α : Type} {f : Client → Outcome ε Client α}
    (h : (f (s.client i)).Keeps fun c => (s.client i).SameIdentity c) :
    (s.onClient i f).Keeps fun t => Serves i s t :=
  h.mapState fun c hsame => .setClient c hsame

end Serves

/-! ## Processing -/

section

variable {i : ℕ} {s : Server}

/-- The flush writes the response stream of the owner, whoever that is. -/
theorem flushShortResponseStream_serves (realloc : Realloc) :
    (flushShortResponseStream realloc s).Keeps fun t => Serves i s t := by
  unfold flushShortResponseStream
  rcases s.shortResponseStreamOwner with _ | owner
  · exact .refl i s
  dsimp only
  have hwrite : (s.onClient owner.index fun client =>
      (serverReservePushValue realloc (s.shortResponseStream.read s.buffers)
        client.responseStream).mapState fun stream =>
          { client with responseStream := stream }).Keeps fun t => Serves i s t := by
    unfold Server.onClient
    refine Outcome.Keeps.mapState (Outcome.keeps_mapState _ fun stream => ⟨stream, rfl⟩)
      (P := fun c => ∃ stream, c = { s.client owner.index with responseStream := stream }) ?_
    rintro _ ⟨stream, rfl⟩
    by_cases howner : owner.index = i
    · rw [howner]
      exact .setClient _ ⟨rfl, rfl, rfl, rfl, rfl⟩
    · have hself : (s.setClient owner.index { s.client owner.index with responseStream := stream }).client i
          = s.client i := Server.client_setClient_of_ne s howner _
      refine ⟨rfl, List.length_set, rfl, rfl, rfl, .inl ⟨rfl, rfl⟩, hself ▸ .refl _, fun j hj => ?_,
        ⟨[], (List.append_nil _).symm, rfl⟩⟩
      by_cases hj' : owner.index = j
      · subst hj'
        by_cases hlt : owner.index < s.clients.elements.length
        · exact ⟨stream, Server.client_setClient hlt _⟩
        · rw [Server.setClient_of_length_le (Nat.not_lt.mp hlt)]
          exact ⟨_, rfl⟩
      · exact ⟨_, Server.client_setClient_of_ne s hj' _⟩
  exact hwrite.andThen (fun _ t ht => ht.trans .short) fun _ => id

/-- Taking a request changes the request stream and the current response. -/
theorem takeRequest_identity (response : Response) (client : Client) :
    (takeRequest response client).Keeps fun c => client.SameIdentity c := by
  unfold takeRequest
  refine (Outcome.keeps_mapState _ fun stream => ?_).andThen (fun _ c hc => ?_) fun _ => id
  · exact ⟨rfl, rfl, rfl, rfl, rfl⟩
  · split_ifs
    · exact hc.trans ⟨rfl, rfl, rfl, rfl, rfl⟩
    · exact hc

theorem resetParser_identity (answers : ShutdownAnswers) (client : Client) :
    (resetParser answers client).Keeps fun c => client.SameIdentity c := by
  unfold resetParser
  split_ifs
  · exact ⟨rfl, rfl, rfl, rfl, rfl⟩
  · exact (cryptographyFinalize_same answers).mono (fun _ _ h => h.toSameIdentity)
      fun _ _ h => h.toSameIdentity
  · exact Client.SameIdentity.refl client

theorem storeResponse_serves (answers : ProcessAnswers) (response : Response) (stream : TextValue) :
    (storeResponse i answers response stream s).Keeps fun t => Serves i s t := by
  unfold storeResponse
  split_ifs
  · exact Serves.onClient ((cryptographyEncrypt_same _ _).mono (fun _ _ h => h.1.toSameIdentity)
      fun _ _ h => h.toSameIdentity)
  · exact Serves.onClient (Outcome.keeps_mapState _ fun stream => ⟨rfl, rfl, rfl, rfl, rfl⟩)
  · exact .short

theorem processRequest_serves (answers : ProcessAnswers) :
    (processRequest i answers s).Keeps fun t => Serves i s t := by
  unfold processRequest
  refine (flushShortResponseStream_serves answers.flush).andThen (fun _ s₁ h₁ => ?_) fun _ => id
  have hgenerate : (generateResponse i answers.processor s₁).Keeps fun t => Serves i s t := by
    unfold generateResponse
    exact Outcome.keeps_mapState _ fun r =>
      (h₁.trans (.setClient { s₁.client i with responseQueue := r.responseQueue }
        ⟨rfl, rfl, rfl, rfl, rfl⟩)).trans .short
  refine hgenerate.andThen (fun result s₂ h₂ => ?_) fun _ => id
  obtain ⟨response, stream⟩ := result
  dsimp only
  have h₃ : Serves i s (s₂.emit (requestLog (s₂.client i) (stream.read s₂.buffers).bytes)) :=
    h₂.trans (.emit rfl)
  generalize s₂.emit (requestLog (s₂.client i) (stream.read s₂.buffers).bytes) = s₃ at h₃ ⊢
  refine ((Serves.onClient (takeRequest_identity response _)).mono fun _ => h₃.trans).andThen
    (fun _ s₄ h₄ => ?_) fun _ => id
  refine ((storeResponse_serves answers response stream).mono fun _ => h₄.trans).andThen
    (fun _ s₅ h₅ => ?_) fun _ => id
  have h₆ := h₅.trans (.setClient { s₅.client i with
    responseCount := (s₅.client i).responseCount + 1 } ⟨rfl, rfl, rfl, rfl, rfl⟩)
  exact (Serves.onClient (resetParser_identity answers.finalize _)).mono fun _ => h₆.trans

theorem serverProcessTraffic_serves (now : ℤ) (answers : ProcessAnswers) :
    (serverProcessTraffic i now answers s).Keeps fun t => Serves i s t := by
  unfold serverProcessTraffic
  have hparse : (s.onClient i parseRequest).Keeps fun t => Serves i s t :=
    Serves.onClient (Outcome.keeps_mapState _ fun progress => ⟨rfl, rfl, rfl, rfl, rfl⟩)
  refine hparse.andThen (fun _ t ht => ?_) fun _ => id
  split_ifs
  · exact ht
  · exact (processRequest_serves answers).mono fun _ h =>
      (ht.trans (.setClient { t.client i with lastRequestComplete := now }
        ⟨rfl, rfl, rfl, rfl, rfl⟩)).trans h

/-! ## Receiving -/

theorem cryptographyDecrypt_identity (answers : DecryptAnswers) (size : ℕ) (client : Client) :
    (cryptographyDecrypt answers size client).Keeps fun d => client.SameIdentity d := by
  -- each of the four stages keeps who the client is
  have hread : ∀ d : Client, client.SameIdentity d →
      (decryptRead answers.read d).Keeps fun e => client.SameIdentity e := by
    intro d hd
    unfold decryptRead
    split_ifs
    · refine (Outcome.keeps_mapState _ fun stream => ?_).andThen (fun closed e he => ?_) fun _ => id
      · exact hd.trans ⟨rfl, rfl, rfl, rfl, rfl⟩
      · show client.SameIdentity (if closed then { e with cryptographyState := .shutdown } else e)
        split_ifs
        · exact he.trans ⟨rfl, rfl, rfl, rfl, rfl⟩
        · exact he
    · exact hd
  have hhandshake : ∀ d : Client, client.SameIdentity d →
      (decryptHandshake answers.accept d).Keeps fun e => client.SameIdentity e := by
    intro d hd
    unfold decryptHandshake
    split_ifs
    · rcases answers.accept with _ | _ | _ | e
      · exact hd.trans ⟨rfl, rfl, rfl, rfl, rfl⟩
      · exact hd.trans ⟨rfl, rfl, rfl, rfl, rfl⟩
      · exact hd
      · exact hd
    · exact hd
  have hshutdown : ∀ d : Client, client.SameIdentity d →
      (decryptShutdown answers.shutdown d).Keeps fun e => client.SameIdentity e := by
    intro d hd
    unfold decryptShutdown
    split_ifs
    · rcases answers.shutdown with _ | _ | _ | e
      · exact hd.trans ⟨rfl, rfl, rfl, rfl, rfl⟩
      · exact hd
      · exact hd
      · exact hd
    · exact hd
  unfold cryptographyDecrypt
  dsimp only
  rcases ringGet client.requestStream _ true with e | value
  · exact Client.SameIdentity.refl client
  rcases answers.refused with _ | e
  · refine (Outcome.keeps_mapState _ fun stream => ?_).andThen (fun _ d hd => ?_) fun _ => id
    · exact ⟨rfl, rfl, rfl, rfl, rfl⟩
    refine (hhandshake d hd).andThen (fun _ d hd => ?_) fun _ => id
    refine (hread d hd).andThen (fun _ d hd => ?_) fun _ => id
    refine (hshutdown d hd).andThen (fun _ d hd => ?_) fun _ => id
    exact (pumpSilently_same _ _).mono (fun _ _ h => hd.trans h.1.toSameIdentity)
      fun _ _ h => hd.trans h.1.toSameIdentity
  · exact Client.SameIdentity.refl client

theorem Client.noteNotEmpty_identity (now : ℤ) (client : Client) :
    client.SameIdentity (client.noteNotEmpty now) := by
  unfold Client.noteNotEmpty
  split_ifs
  · exact ⟨rfl, rfl, rfl, rfl, rfl⟩
  · exact .refl client

variable {v : Visit}

/-- A computation on the server of a visit. -/
theorem Serves.onServer {α : Type} {f : Server → Outcome ExError Server α}
    (hv : Serves i s v.server) (h : (f v.server).Keeps fun t => Serves i v.server t) :
    (v.onServer f).Keeps fun w => Serves i s w.server :=
  h.mapState fun _ => hv.trans

theorem acknowledgeChunk_identity (seq : ℕ) (client : Client) :
    (acknowledgeChunk seq client).Keeps fun d => client.SameIdentity d := by
  unfold acknowledgeChunk
  dsimp only
  rcases ringGet client.responseQueue _ false with e | value
  · exact Client.SameIdentity.refl client
  · exact ⟨rfl, rfl, rfl, rfl, rfl⟩

/-- The message is given away by its owner only. -/
theorem serverReceiveDataGuppy_serves (realloc : Realloc) :
    (serverReceiveDataGuppy i realloc v).Keeps fun w => Serves i v.server w.server := by
  unfold serverReceiveDataGuppy
  dsimp only
  by_cases howner : v.server.shortRequestMessageOwner = some (v.server.pointer i)
  · rw [if_neg (not_not.mpr howner)]
    have hreceived : ∀ t : Server, Serves i v.server t →
        Serves i v.server { t with shortRequestMessageSize := 0, shortRequestMessageOwner := none } :=
      fun t ht => ⟨ht.block, ht.length, ht.polls, ht.births, ht.message, .inr ⟨howner, rfl⟩, ht.self,
        ht.others, ht.told⟩
    refine Outcome.Keeps.andThen (Outcome.Keeps.mapState (P := fun t => Serves i v.server t) ?_
      fun _ => id) (fun _ w hw => hreceived _ hw) fun _ => id
    split_ifs
    · exact Serves.onClient (Outcome.keeps_mapState _ fun stream => ⟨rfl, rfl, rfl, rfl, rfl⟩)
    · exact Serves.onClient (acknowledgeChunk_identity _ _)
    · exact .refl i v.server
  · rw [if_pos howner]
    exact .refl i v.server

theorem receiveData_serves (now : ℤ) (available : ℕ) (answers : ReceiveTrafficAnswers) :
    (receiveData i now available answers v).Keeps fun w => Serves i v.server w.server := by
  unfold receiveData
  refine (Outcome.keeps_mapState (Q := fun w : Visit => Serves i v.server w.server) _ fun r =>
    ?_).andThen (fun _ w hw => ?_) fun _ => id
  · exact .setClient _ ⟨rfl, rfl, rfl, rfl, rfl⟩
  · have hnoted := hw.trans (.setClient _ (Client.noteNotEmpty_identity now (w.server.client i)))
    dsimp only
    split_ifs
    · exact Serves.onServer hnoted (Serves.onClient (cryptographyDecrypt_identity _ _ _))
    · exact hnoted

theorem serverReceiveTraffic_serves (now : ℤ) (answers : ReceiveTrafficAnswers) :
    (serverReceiveTraffic i now answers v).Keeps fun w => Serves i v.server w.server := by
  unfold serverReceiveTraffic
  split_ifs
  · refine (serverReceiveDataGuppy_serves _).andThen (fun _ w hw => ?_) fun _ => id
    exact hw.trans (.setClient _ (Client.noteNotEmpty_identity now (w.server.client i)))
  · rcases answers.available with errno | signedAvailable
    · exact Serves.refl i v.server
    · dsimp only
      by_cases hfailed : signedAvailable < 0
      · rw [if_pos hfailed]
        exact Serves.refl i v.server
      rw [if_neg hfailed]
      by_cases hfits : signedAvailable.toNat ≤ maxAvailableRequestStream
      · rw [if_neg (not_not.mpr hfits)]
        exact receiveData_serves now _ answers
      · rw [if_pos hfits]
        exact Serves.refl i v.server

/-! ## Sending -/

/-- The client that responses are popped from stays the same, and no descriptor is closed. -/
structure PopsFrom (s t : Popping) : Prop where
  self : s.client.SameIdentity t.client
  told : ∃ more, t.effects = s.effects ++ more ∧ closedIn more = []

theorem PopsFrom.refl (s : Popping) : PopsFrom s s :=
  ⟨.refl _, [], (List.append_nil _).symm, rfl⟩

theorem PopsFrom.trans {s t u : Popping} (h : PopsFrom s t) (h' : PopsFrom t u) : PopsFrom s u := by
  obtain ⟨more, hmore, hclosed⟩ := h.told
  obtain ⟨more', hmore', hclosed'⟩ := h'.told
  refine ⟨h.self.trans h'.self, more ++ more', ?_, ?_⟩
  · rw [hmore', hmore, List.append_assoc]
  · rw [closedIn_append, hclosed, hclosed']
    rfl

/-- The client alone is written. -/
theorem PopsFrom.client {s : Popping} {client : Client} (h : s.client.SameIdentity client) :
    PopsFrom s { s with client := client } :=
  ⟨h, [], (List.append_nil _).symm, rfl⟩

/-- What popping responses keeps: whatever depends neither on the response queue of the client and its
first response, nor on the time and the number of responses, nor on log lines. -/
theorem popResponsesLoop_keeps {P : Popping → Prop}
    (hclient : ∀ (p : Popping) (queue : Ring) (response : Response) (count : ℕ) (time : ℤ), P p →
      P { p with client := { p.client with
        responseQueue := queue
        response := response
        responseCount := count
        lastResponseComplete := time } })
    (hlog : ∀ (p : Popping) (method resource : List UInt8), P p →
      P { p with effects := p.effects ++ [.success p.client.birth method resource] })
    (now : ℤ) (fuel sent : ℕ) {p : Popping} (hp : P p) : (popResponsesLoop now fuel sent p).Keeps P := by
  -- everything that is done in a round is one of the two writes
  have hpop : ∀ p, P p → (serverPopResponse p).Keeps P := by
    intro p hp
    unfold serverPopResponse
    refine (Outcome.keeps_mapState (Q := P) _ fun queue => ?_).andThen (fun _ q hq => ?_) fun _ => id
    · exact hclient p queue p.client.response p.client.responseCount p.client.lastResponseComplete hp
    dsimp only
    split_ifs
    · exact hq
    rcases ringLookup q.client.responseQueue q.client.response.method with e | method
    · exact hq
    dsimp only
    rcases ringLookup q.client.responseQueue q.client.response.resource with e | resource
    · exact hq
    · exact Outcome.keeps_mapState _ fun queue => hclient _ queue q.client.response
        q.client.responseCount q.client.lastResponseComplete (hlog q _ _ hq)
  have hnext : ∀ p, P p → (nextResponse p).Keeps P := by
    intro p hp
    unfold nextResponse
    split_ifs
    · rcases ringLookup p.client.responseQueue ⟨0, sizeofResponse⟩ with e | value
      · exact hp
      · exact hclient p p.client.responseQueue _ p.client.responseCount p.client.lastResponseComplete hp
    · exact hp
  induction fuel generalizing sent p with
  | zero => exact trivial
  | succ fuel ih =>
    rw [popResponsesLoop]
    by_cases hsent : sent > 0
    swap
    · rw [if_neg hsent]
      exact hp
    rw [if_pos hsent]
    by_cases hwhole : sent ≥ p.client.response.streamSize
    · rw [if_pos hwhole]
      refine (hpop p hp).andThen (fun _ q hq => ?_) fun _ => id
      refine (hnext _ (hclient q q.client.responseQueue { q.client.response with streamSize := 0 }
        (q.client.responseCount - 1) now hq)).andThen (fun _ r hr => ?_) fun _ => id
      exact ih _ hr
    · rw [if_neg hwhole]
      exact hclient p p.client.responseQueue _ p.client.responseCount p.client.lastResponseComplete hp

theorem serverPopResponses_serves (now : ℤ) (sent : ℕ) :
    (serverPopResponses i now sent s).Keeps fun t => Serves i s t := by
  unfold serverPopResponses
  have hpops : (popResponsesLoop now ((s.client i).responseQueue.size + 2) sent ⟨s.client i, []⟩).Keeps
      fun p => PopsFrom ⟨s.client i, []⟩ p :=
    popResponsesLoop_keeps (fun _ _ _ _ _ hp => hp.trans (.client ⟨rfl, rfl, rfl, rfl, rfl⟩))
      (fun _ _ _ hp => hp.trans ⟨.refl _, _, rfl, rfl⟩) now _ sent (.refl _)
  refine hpops.mapState fun t ht => ?_
  obtain ⟨more, hmore, hclosed⟩ := ht.told
  have hwritten : Serves i s (s.setClient i t.client) := .setClient t.client ht.self
  refine ⟨hwritten.block, hwritten.length, hwritten.polls, hwritten.births, hwritten.message,
    hwritten.messageOwner, hwritten.self, hwritten.others, t.effects, rfl, ?_⟩
  rw [hmore, List.nil_append, hclosed]

/-- Effects that close no descriptor are added. -/
theorem Serves.tell {more : List Effect} (h : closedIn more = []) :
    Serves i s { s with effects := s.effects ++ more } :=
  ⟨rfl, rfl, rfl, rfl, rfl, .inl ⟨rfl, rfl⟩, .refl _, fun _ _ => ⟨_, rfl⟩, ⟨more, rfl, h⟩⟩

theorem Server.afterMessage_serves (chunks : MutableValue) (lastChunkSent : ℤ) (r : Messaging) :
    Serves i s (s.afterMessage i chunks lastChunkSent r) := by
  refine Serves.trans (.setClient { s.client i with
    responseQueue := (s.client i).responseQueue.write chunks r.chunks
    lastChunkSent := lastChunkSent } ⟨rfl, rfl, rfl, rfl, rfl⟩) (.tell ?_)
  exact List.filterMap_eq_nil_iff.mpr fun effect heffect => by
    obtain ⟨bytes, -, rfl⟩ := List.mem_map.mp heffect
    rfl

theorem sendValue_serves (now : ℤ) (answers : SendAnswer × SendAnswer)
    {advance : ℕ → Server → Server} (hadvance : ∀ n t, Serves i t (advance n t))
    (stream : ConstantValue) :
    (sendValue i now answers advance stream v).Keeps fun w => Serves i v.server w.server := by
  unfold sendValue
  split_ifs
  · have hsent : ∀ r : Sending, Serves i v.server (v.afterStream i advance r).server := fun r =>
      (hadvance r.taken.length v.server).trans (.emit rfl)
    unfold sendStream
    rcases serverSendStream answers stream with ⟨_, r⟩ | ⟨e, r⟩ | _
    · exact hsent r
    · exact hsent r
    · exact trivial
  · unfold sendMessage
    dsimp only
    rcases intLength _ with _ | length
    · exact trivial
    rcases (ringGet (v.server.client i).responseQueue _ false).mapError (extend .closeLogDie) with
      e | chunks
    · exact Serves.refl i v.server
    simp only [Outcome.ofOption_some, Outcome.ofExcept_ok, Outcome.andThen_ok]
    rcases serverSendMessage stream _ _ _ _ with ⟨_, r⟩ | ⟨e, r⟩ | _
    · exact (Server.afterMessage_serves chunks _ r).trans (hadvance _ _)
    · exact Server.afterMessage_serves chunks _ r
    · exact trivial

theorem advanceShort_serves (n : ℕ) (t : Server) : Serves i t (advanceShort n t) := .short

theorem serverSendShortResponseStream_serves (now : ℤ) (answers : SendAnswer × SendAnswer) :
    (serverSendShortResponseStream i now answers v).Keeps fun w => Serves i v.server w.server := by
  unfold serverSendShortResponseStream
  refine (sendValue_serves now answers advanceShort_serves _).andThen (fun sent w hw => ?_) fun _ => id
  have hpops : ∀ w : Visit, Serves i v.server w.server → (w.onServer fun s =>
      (serverPopResponses i now sent s).mapError (extend .closeLogDie)).Keeps
        fun w => Serves i v.server w.server := fun w hw =>
    Serves.onServer hw ((serverPopResponses_serves now sent).mapError _)
  dsimp only
  split_ifs
  · exact hpops _ (hw.trans .short)
  · exact hpops w hw

theorem serverSendLongOutputBuffer_serves (now : ℤ) (answers : SendAnswer × SendAnswer) :
    (serverSendLongOutputBuffer i now answers v).Keeps fun w => Serves i v.server w.server := by
  unfold serverSendLongOutputBuffer
  refine (sendValue_serves now answers (fun _ t => .refl i t) _).andThen (fun sent w hw => ?_)
    fun _ => id
  have hpop : (popLong i sent w.server).Keeps fun t => Serves i w.server t :=
    Serves.onClient (Outcome.keeps_mapState _ fun stream => ⟨rfl, rfl, rfl, rfl, rfl⟩)
  refine (Serves.onServer hw hpop).andThen (fun _ u hu => ?_) fun _ => id
  exact Serves.onServer hu ((serverPopResponses_serves now sent).mapError _)

theorem serverSendTraffic_serves (now : ℤ) (answers : SendAnswers) :
    (serverSendTraffic i now answers v).Keeps fun w => Serves i v.server w.server := by
  unfold serverSendTraffic
  have hshort : (if v.server.owns i then
        (serverSendShortResponseStream i now answers.short v).andThen fun _ v =>
          .ok v.server.shortResponseStream.size v
      else .ok 0 v : Outcome ExError Visit ℕ).Keeps fun w => Serves i v.server w.server := by
    split_ifs
    · exact (serverSendShortResponseStream_serves now answers.short).andThen (fun _ _ hw => hw)
        fun _ => id
    · exact Serves.refl i v.server
  refine hshort.andThen (fun size w hw => ?_) fun _ => id
  have hlong : (if w.flags.saturated = false ∧ (w.server.client i).responseStream.size > 0 then
        serverSendLongOutputBuffer i now answers.long w
      else .ok () w : Outcome ExError Visit Unit).Keeps fun u => Serves i v.server u.server := by
    split_ifs
    · exact (serverSendLongOutputBuffer_serves now answers.long).mono fun _ => hw.trans
    · exact hw
  refine hlong.andThen (fun _ u hu => ?_) fun _ => id
  dsimp only
  split_ifs
  · exact hu.trans (.setClient _ ⟨rfl, rfl, rfl, rfl, rfl⟩)
  · exact hu

end

end Twinkleshine
