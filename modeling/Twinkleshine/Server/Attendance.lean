import Twinkleshine.Server.Serving

/-!
# Who is given the short response stream

While a client is served the short response stream may be given to it, or to nobody, and what the server
does to the outside is serving: no descriptor is closed and no fixed text is sent. `Attends` says this of
every function that `server_process_client_round` calls, whoever the client is, and that what the stream
is said to hold can be read from it.
-/

namespace Twinkleshine

open Library

/-! ## What serving may do -/

section

variable {i : ℕ} {s t u : Server} {v w : Visit}

/-- What serving a client does to the outside. -/
def Effect.serves : Effect → Bool
  | generated .. | sent .. | sentTo .. | success .. => true
  | sentFixed .. | refused _ | errorPrinted _ | closed _ => false

/-- The short response stream has the bytes it says, and none while it belongs to nobody. -/
structure Server.Readable (s : Server) : Prop where
  readable : valueSize (s.shortResponseStream.read s.buffers) = s.shortResponseStream.size
  idle : s.shortResponseStreamOwner = none → s.shortResponseStream.size = 0

theorem Server.Readable.congr (h : s.Readable) (hstream : t.shortResponseStream = s.shortResponseStream)
    (howner : t.shortResponseStreamOwner = s.shortResponseStreamOwner) (hbuffers : t.buffers = s.buffers) :
    t.Readable := by
  refine ⟨?_, fun hnone => ?_⟩
  · rw [hstream, hbuffers]
    exact h.readable
  · rw [hstream]
    exact h.idle (howner.symm.trans hnone)

/-- Nothing is read from an empty stream, whatever the buffers hold. -/
theorem TextValue.readable_of_size {value : TextValue} (h : value.size = 0) (buffers : InternalBuffers) :
    valueSize (value.read buffers) = value.size := by
  have hnothing : ∀ part : TextPart, (part.read buffers).length ≤ part.size := fun part =>
    List.length_take_le _ _
  have hpart0 := hnothing value.part0
  have hpart1 := hnothing value.part1
  simp only [TextValue.size, valueSize, TextValue.read] at h ⊢
  omega

/-- A stream that is reset is empty. -/
theorem Server.readable_zero (howner : s.shortResponseStream = .zero) : s.Readable :=
  ⟨TextValue.readable_of_size (by rw [howner]; rfl) s.buffers, fun _ => by rw [howner]; rfl⟩

/-- The owner of the short response stream, if any, points into the table. -/
def Server.OwnerLinked (s : Server) : Prop :=
  ∀ owner, s.shortResponseStreamOwner = some owner → owner.block = s.clients.p

theorem Server.OwnerLinked.given (hs : s.OwnerLinked) (hblock : t.clients.p = s.clients.p)
    (howner : t.shortResponseStreamOwner = s.shortResponseStreamOwner ∨
      t.shortResponseStreamOwner = none ∨ t.shortResponseStreamOwner = some (s.pointer i)) :
    t.OwnerLinked := by
  intro owner hsome
  rcases howner with hsame | hnone | hi
  · exact (hs owner (hsame.symm.trans hsome)).trans hblock.symm
  · exact absurd (hnone.symm.trans hsome) (Option.some_ne_none _).symm
  · rw [← Option.some.inj (hi.symm.trans hsome)]
    exact hblock.symm

/-- Client `j` keeps what it has pending: it is where it was, or what it had in the short response stream
was moved behind what is in its own stream. Where `lost` says so, what it had in the short one may also be
lost. -/
inductive Spared (lost : Prop) (j : ℕ) (s t : Server) : Prop where
  | kept (valid : (t.client j).responseStream.Valid) (owns : t.owns j = s.owns j)
      (content : ringContent (t.client j).responseStream = ringContent (s.client j).responseStream)
      (short : s.owns j = true →
        t.shortResponseStream.read t.buffers = s.shortResponseStream.read s.buffers)
  | moved (valid : (t.client j).responseStream.Valid) (owned : s.owns j = true)
      (given : t.owns j = false)
      (content : ringContent (t.client j).responseStream = ringContent (s.client j).responseStream
        ++ (s.shortResponseStream.read s.buffers).bytes)
  | dropped (valid : (t.client j).responseStream.Valid) (lost : lost) (owned : s.owns j = true)
      (given : t.owns j = false)
      (content : ringContent (t.client j).responseStream = ringContent (s.client j).responseStream)

section

variable {lost : Prop} {j : ℕ}

theorem Spared.refl (hvalid : (s.client j).responseStream.Valid) : Spared lost j s s :=
  .kept hvalid rfl rfl fun _ => rfl

theorem Spared.valid (h : Spared lost j s t) : (t.client j).responseStream.Valid := by
  cases h with
  | kept valid => exact valid
  | moved valid => exact valid
  | dropped valid => exact valid

theorem Spared.mono {lost' : Prop} (h : Spared lost j s t) (hlost : lost → lost') :
    Spared lost' j s t := by
  cases h with
  | kept valid owns content short => exact .kept valid owns content short
  | moved valid owned given content => exact .moved valid owned given content
  | dropped valid lost owned given content => exact .dropped valid (hlost lost) owned given content

theorem Spared.trans (h : Spared lost j s t) (h' : Spared lost j t u) : Spared lost j s u := by
  cases h with
  | kept valid owns content short =>
    cases h' with
    | kept valid' owns' content' short' =>
      exact .kept valid' (owns'.trans owns) (content'.trans content) fun howns =>
        (short' (owns.trans howns)).trans (short howns)
    | moved valid' owned' given' content' =>
      have howned := owns.symm.trans owned'
      exact .moved valid' howned given' (content'.trans (by rw [content, short howned]))
    | dropped valid' lost' owned' given' content' =>
      exact .dropped valid' lost' (owns.symm.trans owned') given' (content'.trans content)
  | moved valid owned given content =>
    cases h' with
    | kept valid' owns' content' => exact .moved valid' owned (owns'.trans given) (content'.trans content)
    | moved _ owned' => exact absurd (owned'.symm.trans given) Bool.noConfusion
    | dropped _ _ owned' => exact absurd (owned'.symm.trans given) Bool.noConfusion
  | dropped valid lost owned given content =>
    cases h' with
    | kept valid' owns' content' =>
      exact .dropped valid' lost owned (owns'.trans given) (content'.trans content)
    | moved _ owned' => exact absurd (owned'.symm.trans given) Bool.noConfusion
    | dropped _ _ owned' => exact absurd (owned'.symm.trans given) Bool.noConfusion

/-- A client that has nothing in the short response stream, before and after, and whose own stream is the
same. -/
theorem Spared.of_not_owns (hvalid : (s.client j).responseStream.Valid)
    (hclient : (t.client j).responseStream = (s.client j).responseStream) (howns : s.owns j = false)
    (howns' : t.owns j = false) : Spared lost j s t :=
  .kept (hclient ▸ hvalid) (howns'.trans howns.symm) (by rw [hclient]) fun howned =>
    absurd (howned.symm.trans howns) Bool.noConfusion

/-- A client that has nothing in its own stream, while it has something in the short one, has the same
pending as before. -/
theorem Spared.pending_eq (h : Spared False j s t)
    (hempty : s.owns j = true → ringContent (s.client j).responseStream = []) :
    t.pending j = s.pending j := by
  cases h with
  | kept valid owns content short =>
    by_cases howns : s.owns j = true
    · rw [Server.pending, Server.pending, Server.shortPending, Server.shortPending, owns, content,
        short howns]
    · have hnone := Bool.eq_false_iff.mpr howns
      rw [Server.pending_of_not_owns hnone, Server.pending_of_not_owns (owns.trans hnone), content]
  | moved valid owned given content =>
    rw [Server.pending_of_not_owns given, content, Server.pending, Server.shortPending, if_pos owned,
      hempty owned, List.nil_append, List.append_nil]
  | dropped _ lost => exact lost.elim

/-- The size of what is pending, as the program computes it, does not grow, and is the same if nothing is
lost. -/
theorem Spared.clientResponseStreamSize_le (h : Spared lost j s t)
    (hvalid : (s.client j).responseStream.Valid)
    (hs : valueSize (s.shortResponseStream.read s.buffers) = s.shortResponseStream.size)
    (ht : valueSize (t.shortResponseStream.read t.buffers) = t.shortResponseStream.size) :
    clientResponseStreamSize t j ≤ clientResponseStreamSize s j ∧
      (¬ lost → clientResponseStreamSize t j = clientResponseStreamSize s j) := by
  have hlength := hvalid.length_content
  have hlength' := h.valid.length_content
  rw [clientResponseStreamSize, clientResponseStreamSize, ← hlength, ← hlength', ← hs, ← ht]
  cases h with
  | kept valid owns content short =>
    by_cases howns : s.owns j = true
    · rw [owns, content, short howns]
      exact ⟨Nat.le_refl _, fun _ => rfl⟩
    · rw [owns, content, if_neg howns, if_neg howns]
      exact ⟨Nat.le_refl _, fun _ => rfl⟩
  | moved valid owned given content =>
    rw [given, owned, content, List.length_append, if_neg Bool.false_ne_true, if_pos rfl, valueSize_eq]
    exact ⟨Nat.le_refl _, fun _ => rfl⟩
  | dropped valid lost owned given content =>
    rw [given, owned, content]
    exact ⟨Nat.le_add_right _ _, fun hlost => absurd lost hlost⟩

end

/-- The short response stream has one owner. -/
theorem Server.owns_eq_false_of_ne {j : ℕ} (howns : s.owns i = true) (hj : j ≠ i) : s.owns j = false := by
  refine Bool.eq_false_iff.mpr fun howns' => hj ?_
  rw [Server.owns_iff] at howns howns'
  exact (Server.pointer_inj.mp (Option.some.inj (howns.symm.trans howns'))).symm

/-- Client `i` was attended to: the short response stream stays where it is, or is given to the client,
or to nobody; the others keep what they have pending; and nothing is done to the outside but serving. -/
structure Attends (i : ℕ) (s t : Server) : Prop where
  block : t.clients.p = s.clients.p
  length : t.clients.elements.length = s.clients.elements.length
  owner : t.shortResponseStreamOwner = s.shortResponseStreamOwner ∨ t.shortResponseStreamOwner = none ∨
    t.shortResponseStreamOwner = some (s.pointer i)
  message : t.shortRequestMessageOwner = s.shortRequestMessageOwner ∨ t.shortRequestMessageOwner = none
  told : ∃ more, t.effects = s.effects ++ more ∧ ∀ effect ∈ more, effect.serves = true
  readable : s.Readable → t.Readable
  spared : s.OwnerLinked → ∀ j < s.clients.elements.length, j ≠ i →
    (s.client j).responseStream.Valid → Spared False j s t

theorem Attends.refl (i : ℕ) (s : Server) : Attends i s s :=
  ⟨rfl, rfl, .inl rfl, .inl rfl, ⟨[], (List.append_nil _).symm, fun _ h => absurd h List.not_mem_nil⟩, id,
    fun _ _ _ _ hvalid => .refl hvalid⟩

theorem Attends.linked (h : Attends i s t) (hs : s.OwnerLinked) : t.OwnerLinked :=
  hs.given h.block h.owner

theorem Attends.trans (h : Attends i s t) (h' : Attends i t u) : Attends i s u := by
  obtain ⟨more, hmore, hall⟩ := h.told
  obtain ⟨more', hmore', hall'⟩ := h'.told
  refine ⟨h'.block.trans h.block, h'.length.trans h.length, ?_, ?_, ⟨more ++ more', ?_, ?_⟩,
    fun hs => h'.readable (h.readable hs), fun hlinked j hlt hj hs => ?_⟩
  · have hpointer : t.pointer i = s.pointer i := by rw [Server.pointer, Server.pointer, h.block]
    rcases h'.owner with hsame | hnone | hi
    · rw [hsame]
      exact h.owner
    · exact .inr (.inl hnone)
    · exact .inr (.inr (hi.trans (congrArg some hpointer)))
  · rcases h'.message with hsame | hnone
    · rw [hsame]
      exact h.message
    · exact .inr hnone
  · rw [hmore', hmore, List.append_assoc]
  · exact fun effect heffect => (List.mem_append.mp heffect).elim (hall effect) (hall' effect)
  · have hspared := h.spared hlinked j hlt hj hs
    exact hspared.trans (h'.spared (h.linked hlinked) j (h.length.symm ▸ hlt) hj hspared.valid)

/-- Nobody else is given it. -/
theorem Attends.owns_of_ne (h : Attends i s t) {j : ℕ} (hj : j ≠ i) (howns : t.owns j = true) :
    s.owns j = true := by
  rw [Server.owns_iff, Server.pointer, h.block] at howns
  rw [Server.owns_iff]
  rcases h.owner with hsame | hnone | hi
  · exact hsame.symm.trans howns
  · rw [hnone] at howns
    cases howns
  · rw [hi, Option.some.injEq] at howns
    exact absurd (Server.pointer_inj.mp howns).symm hj

/-- The client is written, and something is done that serves it. -/
theorem Attends.write (h : Attends i s t) (client : Client) {more : List Effect}
    (hmore : ∀ effect ∈ more, effect.serves = true) :
    Attends i s { t.setClient i client with effects := t.effects ++ more } := by
  refine h.trans ⟨rfl, List.length_set, .inl rfl, .inl rfl, ⟨more, rfl, hmore⟩, fun hs => hs.congr rfl rfl rfl,
    fun _ j _ hj hvalid => ?_⟩
  have hclient : (t.setClient i client).client j = t.client j :=
    Server.client_setClient_of_ne t (Ne.symm hj) client
  exact .kept (congrArg Client.responseStream hclient ▸ hvalid) rfl
    (congrArg (fun c : Client => ringContent c.responseStream) hclient) fun _ => rfl

theorem Attends.setClient (h : Attends i s t) (client : Client) : Attends i s (t.setClient i client) := by
  have hnothing : ∀ effect ∈ ([] : List Effect), effect.serves = true := fun _ h =>
    absurd h List.not_mem_nil
  have hwrite := h.write client hnothing
  rwa [List.append_nil] at hwrite

theorem Attends.tell (h : Attends i s t) {more : List Effect}
    (hmore : ∀ effect ∈ more, effect.serves = true) :
    Attends i s { t with effects := t.effects ++ more } := by
  have hwrite := h.write (t.client i) hmore
  rwa [Server.setClient_client] at hwrite

/-- A computation on the client. -/
theorem Attends.onClient {ε α : Type} (h : Attends i s t) (f : Client → Outcome ε Client α) :
    (t.onClient i f).Keeps fun u => Attends i s u :=
  Outcome.keeps_mapState _ fun client => h.setClient client

/-! ## Receiving -/

theorem serverReceiveDataGuppy_attends (realloc : Realloc) :
    (serverReceiveDataGuppy i realloc v).Keeps fun w => Attends i v.server w.server := by
  have hrefl := Attends.refl i v.server
  have hreceived : ∀ r : Outcome ExError Server Unit, (r.Keeps fun t => Attends i v.server t) →
      ((r.mapState fun s => { v with server := s }).andThen fun _ v => .ok () { v with
        server.shortRequestMessageSize := 0, server.shortRequestMessageOwner := none }).Keeps
          fun w => Attends i v.server w.server := fun r hr =>
    Outcome.Keeps.andThen (P := fun w : Visit => Attends i v.server w.server)
      (hr.mapState fun _ => id)
      (fun _ w hw => hw.trans ⟨rfl, rfl, .inl rfl, .inr rfl, (Attends.refl i w.server).told,
        fun hs => hs.congr rfl rfl rfl, fun _ _ _ _ hvalid => .kept hvalid rfl rfl fun _ => rfl⟩) fun _ => id
  unfold serverReceiveDataGuppy
  dsimp only
  split_ifs with howner hrequest hpasses
  · exact hrefl
  · exact hreceived _ (hrefl.onClient _)
  · exact hreceived _ (hrefl.onClient _)
  · exact hrefl

theorem serverReceiveTraffic_attends (now : ℤ) (answers : ReceiveTrafficAnswers) :
    (serverReceiveTraffic i now answers v).Keeps fun w => Attends i v.server w.server := by
  have hrefl := Attends.refl i v.server
  unfold serverReceiveTraffic
  by_cases hmessage : acceptingSocketIsMessage (v.server.client i).acceptingSocket = true
  · rw [if_pos hmessage]
    exact (serverReceiveDataGuppy_attends _).andThen (fun _ w hw => hw.setClient _) fun _ => id
  rw [if_neg hmessage]
  rcases answers.available with errno | available
  · exact hrefl
  dsimp only
  split_ifs
  · exact hrefl
  · unfold receiveData
    refine (Outcome.keeps_mapState (Q := fun w : Visit => Attends i v.server w.server) _
      fun r => hrefl.setClient _).andThen (fun _ w hw => ?_) fun _ => id
    dsimp only
    split_ifs
    · exact Outcome.Keeps.mapState ((hw.setClient _).onClient _) fun _ => id
    · exact hw.setClient _
  · exact hrefl

/-! ## Answering -/

/-- What is put into the queue and handed out can be read. -/
theorem respond_readable {buffers : InternalBuffers} {stream : TextValue}
    (hread : valueSize (stream.read buffers) = stream.size) (r : Outcome ExError Ring Response) :
    ((r.mapState fun queue => (⟨buffers, queue⟩ : ProcessorState)).andThen fun response q =>
        .ok (response, stream) q).Meets True
      (fun result q => valueSize (result.2.read q.buffers) = result.2.size) fun _ _ => True := by
  rcases r with ⟨response, queue⟩ | ⟨e, queue⟩ | _
  · exact hread
  · exact trivial
  · exact trivial

theorem processorProcessStatic_readable (text : List UInt8) (request : Request) (lookup : Lookup)
    (env : ProcessorEnvironment) (p : ProcessorState) :
    (processorProcessStatic text request lookup env p).Meets True
      (fun result q => valueSize (result.2.read q.buffers) = result.2.size) fun _ _ => True := by
  unfold processorProcessStatic
  rcases requestWords lookup request with e | ⟨method, resource, protocol⟩
  · exact trivial
  · have hread : valueSize ((TextValue.ofText text).read p.buffers) = (TextValue.ofText text).size := by
      rw [TextValue.read_ofText]
      rfl
    exact respond_readable hread _

/-- What a processor hands out can be read. -/
theorem processorProcess_readable (acceptingSocket : ℕ) (request : Request) (lookup : Lookup)
    (env : ProcessorEnvironment) (p : ProcessorState) :
    (processorProcess acceptingSocket request lookup env p).Meets True
      (fun result q => valueSize (result.2.read q.buffers) = result.2.size) fun _ _ => True := by
  have hspecific : (processorSpecific acceptingSocket request lookup env p).Meets True
      (fun result q => valueSize (result.2.read q.buffers) = result.2.size) fun _ _ => True := by
    have hhttp : (processorProcessHttp request lookup env p).Meets True
        (fun result q => valueSize (result.2.read q.buffers) = result.2.size) fun _ _ => True := by
      unfold processorProcessHttp
      rcases requestWords lookup request with e | ⟨method, resource, protocol⟩
      · exact trivial
      · rcases env.refusedString with _ | refused
        · exact respond_readable (TextValue.valueSize_ofBuffers _) _
        · exact trivial
    unfold processorSpecific
    cases acceptingSocketProtocol acceptingSocket with
    | http | https => exact hhttp
    | gopher | finger | gemini | spartan | nex | text | guppy =>
      exact processorProcessStatic_readable _ request lookup env p
  unfold processorProcess
  rcases lookup request.method with e | method
  · exact trivial
  dsimp only
  split_ifs
  · rcases lookup request.resource with e | resource
    · exact trivial
    rcases lookup request.protocol with e | protocol
    · exact trivial
    rcases env.page with page | _ | ⟨e, leftover⟩
    · exact respond_readable (TextValue.valueSize_ofBuffers _) _
    · exact hspecific
    · exact trivial
  · exact hspecific

/-- A valid stream stays valid, whether the push works or not. -/
theorem serverReservePushValue_valid (realloc : Realloc) (data : ConstantValue) (stream : Ring) :
    (serverReservePushValue realloc data stream).Keeps fun r => stream.Valid → r.Valid := by
  by_cases hvalid : stream.Valid
  · exact (serverReservePushValue_meets hvalid realloc data).mono (fun _ r hr _ => hr.1)
      fun _ r hr _ => hr.1 ▸ hvalid
  · exact Outcome.meets_of_forall (fun _ _ _ h => absurd h hvalid) fun _ _ _ h => absurd h hvalid

/-- What was in the short response stream is behind what is in the stream of its owner. -/
theorem spared_flushed {owner : ClientPointer} (hsome : s.shortResponseStreamOwner = some owner)
    (hlinked : owner.block = s.clients.p) {stream : Ring}
    (hstream : (s.client owner.index).responseStream.Valid → stream.Valid ∧
      ringContent stream = ringContent (s.client owner.index).responseStream
        ++ (s.shortResponseStream.read s.buffers).bytes) {j : ℕ}
    (hlt : j < s.clients.elements.length) (hvalid : (s.client j).responseStream.Valid) :
    Spared False j s { s.setClient owner.index { s.client owner.index with responseStream := stream } with
      shortResponseStream := .zero, shortResponseStreamOwner := none } := by
  have hpointer : s.pointer owner.index = owner := by rw [Server.pointer, ← hlinked]
  by_cases hj : owner.index = j
  · subst hj
    obtain ⟨hvalid', hcontent⟩ := hstream hvalid
    have hclient := Server.client_setClient hlt { s.client owner.index with responseStream := stream }
    refine .moved ?_ ?_ rfl ?_
    · exact congrArg Client.responseStream hclient ▸ hvalid'
    · rw [Server.owns_iff, hpointer, hsome]
    · exact (congrArg (fun c : Client => ringContent c.responseStream) hclient).trans hcontent
  · refine .of_not_owns hvalid ?_ ?_ rfl
    · exact congrArg Client.responseStream (Server.client_setClient_of_ne s hj _)
    · refine Bool.eq_false_iff.mpr fun howns => hj ?_
      rw [Server.owns_iff, hsome, ← hpointer, Option.some.injEq] at howns
      exact Server.pointer_inj.mp howns

/-- The flush fills the stream of the owner, whoever that is. -/
theorem flushShortResponseStream_attends (realloc : Realloc) :
    (flushShortResponseStream realloc s).Meets True
      (fun _ t => Attends i s t ∧ t.shortResponseStreamOwner = none) fun _ t => Attends i s t := by
  have hrefl := Attends.refl i s
  unfold flushShortResponseStream
  rcases hsome : s.shortResponseStreamOwner with _ | owner
  · exact ⟨hrefl, hsome⟩
  dsimp only
  set bytes := (s.shortResponseStream.read s.buffers).bytes with hbytes
  have hwrite : (s.onClient owner.index fun client =>
      (serverReservePushValue realloc (s.shortResponseStream.read s.buffers)
        client.responseStream).mapState fun stream =>
          { client with responseStream := stream }).Meets True
        (fun _ t => Attends i s { t with
          shortResponseStream := .zero, shortResponseStreamOwner := none })
        fun _ t => Attends i s t := by
    have hpush : (serverReservePushValue realloc (s.shortResponseStream.read s.buffers)
        (s.client owner.index).responseStream).Meets True
          (fun _ r => (s.client owner.index).responseStream.Valid → r.Valid ∧
            ringContent r = ringContent (s.client owner.index).responseStream ++ bytes)
          fun _ r => (s.client owner.index).responseStream.Valid →
            r = (s.client owner.index).responseStream := by
      by_cases hvalid : (s.client owner.index).responseStream.Valid
      · exact (serverReservePushValue_meets hvalid realloc _).mono (fun _ _ hr _ => hr)
          fun _ _ hr _ => hr.1
      · exact Outcome.meets_of_forall (fun _ _ _ h => absurd h hvalid) fun _ _ _ h => absurd h hvalid
    refine ((hpush.mapState _).mapState _).mono ?_ ?_
    · rintro _ _ ⟨_, rfl, stream, rfl, hstream⟩
      refine ⟨rfl, List.length_set, .inr (.inl rfl), .inl rfl, hrefl.told, fun _ => Server.readable_zero rfl,
        fun hlinked j hlt _ hvalid => ?_⟩
      exact spared_flushed hsome (hlinked owner hsome) hstream hlt hvalid
    · rintro _ _ ⟨_, rfl, stream, rfl, hstream⟩
      refine ⟨rfl, List.length_set, .inl rfl, .inl rfl, hrefl.told, fun hs => hs.congr rfl rfl rfl,
        fun _ j _ _ hvalid => ?_⟩
      have hsame : ((s.setClient owner.index { s.client owner.index with
          responseStream := stream }).client j).responseStream = (s.client j).responseStream := by
        by_cases hj : owner.index = j
        · subst hj
          rw [hstream hvalid, Server.setClient_client]
        · rw [Server.client_setClient_of_ne s hj]
      exact .kept (hsame ▸ hvalid) rfl (by rw [hsame]) fun _ => rfl
  exact hwrite.andThen (fun _ t ht => ⟨ht, rfl⟩) fun _ _ => id

/-- What is generated can be read. -/
theorem generateResponse_attends (hnone : s.shortResponseStreamOwner = none)
    (env : ProcessorEnvironment) :
    (generateResponse i env s).Meets True
      (fun result t => (Attends i s t ∧ t.shortResponseStreamOwner = none) ∧
        valueSize (result.2.read t.buffers) = result.2.size)
      fun _ t => Attends i s t := by
  have hwritten : ∀ p : ProcessorState, Attends i s { s.setClient i { s.client i with
      responseQueue := p.responseQueue } with buffers := p.buffers } := fun p => by
    have hclient := (Attends.refl i s).setClient { s.client i with responseQueue := p.responseQueue }
    refine ⟨rfl, List.length_set, .inl rfl, .inl rfl, hclient.told, fun hs => ⟨?_, hs.idle⟩,
      fun _ j _ hj hvalid => ?_⟩
    · exact TextValue.readable_of_size (hs.idle hnone) p.buffers
    · exact .of_not_owns hvalid (congrArg Client.responseStream (Server.client_setClient_of_ne s hj.symm _))
        (Server.owns_of_none hnone j) (Server.owns_of_none hnone j)
  refine ((processorProcess_readable _ _ _ env _).mapState _).mono ?_ ?_
  · rintro result _ ⟨p, rfl, hread⟩
    exact ⟨⟨hwritten p, hnone⟩, hread⟩
  · rintro e _ ⟨p, rfl, -⟩
    exact hwritten p

theorem storeResponse_attends (h : Attends i s t) (hnone : t.shortResponseStreamOwner = none)
    {stream : TextValue} (hread : valueSize (stream.read t.buffers) = stream.size) (answers : ProcessAnswers)
    (response : Response) : (storeResponse i answers response stream t).Keeps fun u => Attends i s u := by
  unfold storeResponse
  split_ifs
  · exact h.onClient _
  · exact h.onClient _
  · refine h.trans ⟨rfl, rfl, .inr (.inr rfl), .inl rfl, (Attends.refl i t).told, fun _ => ⟨hread,
      fun hnone => absurd hnone (Option.some_ne_none _)⟩,
      fun _ j _ hj hvalid => .of_not_owns hvalid rfl (Server.owns_of_none hnone j) ?_⟩
    refine Bool.eq_false_iff.mpr fun howns => hj ?_
    rw [Server.owns_iff] at howns
    exact (Server.pointer_inj.mp (Option.some.inj howns)).symm

theorem processRequest_attends (answers : ProcessAnswers) :
    (processRequest i answers s).Keeps fun t => Attends i s t := by
  unfold processRequest
  refine Outcome.Meets.andThen (flushShortResponseStream_attends answers.flush) (fun _ t ht => ?_)
    fun _ _ => id
  refine Outcome.Meets.andThen (generateResponse_attends ht.2 answers.processor) (fun result u hu => ?_)
    fun _ _ => ht.1.trans
  obtain ⟨response, stream⟩ := result
  obtain ⟨⟨hu, hnone⟩, hread⟩ := hu
  have hlogged : Attends i s (u.emit (requestLog (u.client i) (stream.read u.buffers).bytes)) :=
    (ht.1.trans hu).tell fun effect heffect => List.mem_singleton.mp heffect ▸ rfl
  have htaken : ((u.emit (requestLog (u.client i) (stream.read u.buffers).bytes)).onClient i
      (takeRequest response)).Keeps fun x => Attends i s x ∧ x.buffers = u.buffers ∧
        x.shortResponseStreamOwner = none :=
    Outcome.keeps_mapState _ fun client => ⟨hlogged.setClient client, rfl, hnone⟩
  refine htaken.andThen (fun _ x hx => ?_) fun _ hx => hx.1
  obtain ⟨hx, hbuffers, hnone'⟩ := hx
  refine (storeResponse_attends hx hnone' (hbuffers ▸ hread) answers response).andThen (fun _ y hy => ?_)
    fun _ => id
  exact (hy.setClient _).onClient _

theorem serverProcessTraffic_attends (now : ℤ) (answers : ProcessAnswers) :
    (serverProcessTraffic i now answers s).Keeps fun t => Attends i s t := by
  unfold serverProcessTraffic
  refine ((Attends.refl i s).onClient _).andThen (fun _ t ht => ?_) fun _ => id
  split_ifs
  · exact ht
  · exact (processRequest_attends answers).mono fun _ => (ht.setClient _).trans

/-! ## Sending -/

theorem serverPopResponses_attends {sent : ℕ} {now : ℤ} {f : Error → ExError}
    (h : Attends i s v.server) :
    (v.onServer fun t => (serverPopResponses i now sent t).mapError f).Keeps fun w =>
      Attends i s w.server := by
  have hpops : ((serverPopResponses i now sent v.server).mapError f).Keeps fun t => Attends i s t := by
    refine Outcome.Keeps.mapError ?_ f
    have hlogs : (popResponsesLoop now ((v.server.client i).responseQueue.size + 2) sent
        ⟨v.server.client i, []⟩).Keeps fun p => ∀ effect ∈ p.effects, effect.serves = true := by
      refine popResponsesLoop_keeps (fun _ _ _ _ _ => id) (fun p method resource hp effect heffect => ?_)
        now _ sent fun _ h => absurd h List.not_mem_nil
      rcases List.mem_append.mp heffect with hold | hnew
      · exact hp effect hold
      · rw [List.mem_singleton.mp hnew]
        rfl
    exact hlogs.mapState fun p hp => h.write p.client hp
  exact hpops.mapState fun _ => id

/-- What is advanced is still read. -/
theorem advanceShort_attends (n : ℕ) (howns : s.owns i = true) : Attends i s (advanceShort n s) := by
  have howns' : ∀ j, j ≠ i → s.owns j = false := fun j => Server.owns_eq_false_of_ne howns
  refine ⟨rfl, rfl, .inl rfl, .inl rfl, (Attends.refl i s).told, fun hs => ⟨?_, fun hnone => ?_⟩,
    fun _ j _ hj hvalid => .of_not_owns hvalid rfl (howns' j hj) (howns' j hj)⟩
  · exact (TextValue.read_advance hs.readable n).2
  · have hzero := hs.idle hnone
    simp only [TextValue.size] at hzero
    simp only [advanceShort, TextValue.size, TextValue.advance, TextPart.advance]
    omega

theorem sendValue_attends {advance : ℕ → Server → Server}
    (hadvance : ∀ n t, t.owns i = v.server.owns i → Attends i t (advance n t)) (now : ℤ)
    (answers : SendAnswer × SendAnswer) (stream : ConstantValue) :
    (sendValue i now answers advance stream v).Keeps fun w => Attends i v.server w.server := by
  unfold sendValue
  split_ifs
  · have hsent : ∀ r : Sending, Attends i v.server (v.afterStream i advance r).server := fun r =>
      (hadvance r.taken.length v.server rfl).tell fun effect heffect => List.mem_singleton.mp heffect ▸ rfl
    unfold sendStream
    rcases serverSendStream answers stream with ⟨_, r⟩ | ⟨e, r⟩ | _
    · exact hsent r
    · exact hsent r
    · exact trivial
  · have hsent : ∀ (chunks : MutableValue) (lastChunkSent : ℤ) (r : Messaging),
        Attends i v.server (v.server.afterMessage i chunks lastChunkSent r) := fun chunks lastChunkSent r =>
      (Attends.refl i v.server).write _ fun effect heffect => by
        obtain ⟨bytes, -, rfl⟩ := List.mem_map.mp heffect
        rfl
    unfold sendMessage
    dsimp only
    rcases intLength _ with _ | length
    · exact trivial
    rcases (ringGet (v.server.client i).responseQueue _ false).mapError (extend .closeLogDie) with
      e | chunks
    · exact Attends.refl i v.server
    simp only [Outcome.ofOption_some, Outcome.ofExcept_ok, Outcome.andThen_ok]
    rcases serverSendMessage stream _ _ _ _ with ⟨_, r⟩ | ⟨e, r⟩ | _
    · exact (hsent chunks _ r).trans (hadvance _ _ rfl)
    · exact hsent chunks _ r
    · exact trivial

theorem serverSendShortResponseStream_attends (howns : v.server.owns i = true) (now : ℤ)
    (answers : SendAnswer × SendAnswer) :
    (serverSendShortResponseStream i now answers v).Keeps fun w => Attends i v.server w.server := by
  unfold serverSendShortResponseStream
  have hothers : ∀ w : Visit, Attends i v.server w.server → ∀ j, j ≠ i → w.server.owns j = false :=
    fun w hw j hj => Bool.eq_false_iff.mpr fun howns' =>
      Bool.false_ne_true ((Server.owns_eq_false_of_ne howns hj).symm.trans (hw.owns_of_ne hj howns'))
  have hadvance : ∀ (n : ℕ) (t : Server), t.owns i = v.server.owns i → Attends i t (advanceShort n t) :=
    fun n t ht => advanceShort_attends n (ht.trans howns)
  refine (sendValue_attends hadvance now answers _).andThen (fun sent w hw => ?_) fun _ => id
  dsimp only
  split_ifs with hzero
  · refine serverPopResponses_attends (v := { w with server.shortResponseStreamOwner := none })
      (hw.trans ⟨rfl, rfl, .inr (.inl rfl), .inl rfl, (Attends.refl i w.server).told, fun hs => ?_,
        fun _ j _ hj hvalid => ?_⟩)
    · exact ⟨hs.readable, fun _ => hzero⟩
    · exact .of_not_owns hvalid rfl (hothers w hw j hj) rfl
  · exact serverPopResponses_attends hw

theorem serverSendLongOutputBuffer_attends (now : ℤ) (answers : SendAnswer × SendAnswer) :
    (serverSendLongOutputBuffer i now answers v).Keeps fun w => Attends i v.server w.server := by
  unfold serverSendLongOutputBuffer
  dsimp only
  refine (sendValue_attends (fun n t _ => .refl i t) now answers _).andThen (fun sent w hw => ?_) fun _ => id
  have hpop : (w.onServer (popLong i sent)).Keeps fun x => Attends i v.server x.server :=
    Outcome.Keeps.mapState (hw.onClient _) fun _ => id
  exact hpop.andThen (fun _ x hx => serverPopResponses_attends hx) fun _ => id

theorem serverSendTraffic_attends (now : ℤ) (answers : SendAnswers) :
    (serverSendTraffic i now answers v).Keeps fun w => Attends i v.server w.server := by
  unfold serverSendTraffic
  have hshort : (if v.server.owns i then
        (serverSendShortResponseStream i now answers.short v).andThen fun _ v =>
          .ok v.server.shortResponseStream.size v
      else .ok 0 v : Outcome ExError Visit ℕ).Keeps fun w => Attends i v.server w.server := by
    split_ifs with howns
    · exact (serverSendShortResponseStream_attends howns now answers.short).andThen (fun _ _ hw => hw)
        fun _ => id
    · exact Attends.refl i v.server
  refine hshort.andThen (fun size w hw => ?_) fun _ => id
  have hlong : (if w.flags.saturated = false ∧ (w.server.client i).responseStream.size > 0 then
        serverSendLongOutputBuffer i now answers.long w
      else .ok () w : Outcome ExError Visit Unit).Keeps fun u => Attends i v.server u.server := by
    split_ifs
    · exact (serverSendLongOutputBuffer_attends now answers.long).mono fun _ => hw.trans
    · exact hw
  refine hlong.andThen (fun _ u hu => ?_) fun _ => id
  dsimp only
  split_ifs
  · exact hu.setClient _
  · exact hu

/-! ## Visits -/

/-- Client `i` was visited: the short response stream stays where it is, or is given to the client, or to
nobody, and can still be read. The others keep what they have pending, but the end of a client that owns a
message takes away what is in the short response stream, whoever it belongs to. -/
structure Attended (i : ℕ) (s t : Server) : Prop where
  block : t.clients.p = s.clients.p
  length : t.clients.elements.length = s.clients.elements.length
  owner : t.shortResponseStreamOwner = s.shortResponseStreamOwner ∨ t.shortResponseStreamOwner = none ∨
    t.shortResponseStreamOwner = some (s.pointer i)
  message : t.shortRequestMessageOwner = s.shortRequestMessageOwner ∨ t.shortRequestMessageOwner = none
  readable : s.Readable → t.Readable
  spared : s.OwnerLinked → ∀ j < s.clients.elements.length, j ≠ i →
    (s.client j).responseStream.Valid →
      Spared (s.shortRequestMessageOwner = some (s.pointer i)) j s t

theorem Attends.attended (h : Attends i s t) : Attended i s t :=
  ⟨h.block, h.length, h.owner, h.message, h.readable, fun hlinked j hlt hj hvalid =>
    (h.spared hlinked j hlt hj hvalid).mono False.elim⟩

namespace Attended

theorem refl (i : ℕ) (s : Server) : Attended i s s := (Attends.refl i s).attended

theorem linked (h : Attended i s t) (hs : s.OwnerLinked) : t.OwnerLinked :=
  hs.given h.block h.owner

theorem trans (h : Attended i s t) (h' : Attended i t u) : Attended i s u := by
  have hpointer : t.pointer i = s.pointer i := by rw [Server.pointer, Server.pointer, h.block]
  refine ⟨h'.block.trans h.block, h'.length.trans h.length, ?_, ?_,
    fun hs => h'.readable (h.readable hs), fun hlinked j hlt hj hs => ?_⟩
  · rcases h'.owner with hsame | hnone | hi
    · rw [hsame]
      exact h.owner
    · exact .inr (.inl hnone)
    · exact .inr (.inr (hi.trans (congrArg some hpointer)))
  · rcases h'.message with hsame | hnone
    · rw [hsame]
      exact h.message
    · exact .inr hnone
  · have hspared := h.spared hlinked j hlt hj hs
    refine hspared.trans ((h'.spared (h.linked hlinked) j (h.length.symm ▸ hlt) hj hspared.valid).mono ?_)
    intro hlost
    rcases h.message with hsame | hnone
    · rw [← hsame, hlost, hpointer]
    · exact absurd (hnone.symm.trans hlost) (Option.some_ne_none _).symm

/-- What is told, and what is polled for, does not matter. -/
theorem tables {polls : Buffer Poll} {effects : List Effect} :
    Attended i s { s with polls := polls, effects := effects } :=
  ⟨rfl, rfl, .inl rfl, .inl rfl, fun hs => hs.congr rfl rfl rfl,
    fun _ _ _ _ hvalid => .kept hvalid rfl rfl fun _ => rfl⟩

end Attended

theorem pollFinalize_attended (k : ℕ) : Attended i s (pollFinalize k s) := by
  unfold pollFinalize
  rcases (s.poll k).fd with _ | fd
  · exact .refl i s
  · exact .tables

/-- The end of a client. -/
theorem clientFinalize_attended : Attended i s (clientFinalize i s) := by
  have hclient : ∀ j, j ≠ i → (s.setClient i (s.client i).finalized).client j = s.client j :=
    fun j hj => Server.client_setClient_of_ne s hj.symm _
  rw [clientFinalize_eq]
  by_cases hmessage : s.shortRequestMessageOwner = some (s.pointer i)
  · rw [if_pos hmessage, if_pos hmessage]
    refine ⟨rfl, List.length_set, .inr (.inl rfl), .inl rfl, fun _ => Server.readable_zero rfl,
      fun _ j _ hj hvalid => ?_⟩
    have hstream := congrArg Client.responseStream (hclient j hj)
    by_cases howns : s.owns j = true
    · exact .dropped (hstream ▸ hvalid) hmessage howns rfl (congrArg ringContent hstream)
    · exact .of_not_owns hvalid hstream (Bool.eq_false_iff.mpr howns) rfl
  · rw [if_neg hmessage, if_neg hmessage]
    refine ⟨rfl, List.length_set, .inl rfl, .inl rfl, fun hs => hs.congr rfl rfl rfl,
      fun _ j _ hj hvalid => ?_⟩
    have hstream := congrArg Client.responseStream (hclient j hj)
    exact .kept (hstream ▸ hvalid) rfl (congrArg ringContent hstream) fun _ => rfl

theorem finalizeClient_attended : Attended i s (finalizeClient i s) := by
  unfold finalizeClient
  split_ifs
  · exact (pollFinalize_attended _).trans clientFinalize_attended
  · exact clientFinalize_attended

theorem roundFirst_attended (now : ℤ) :
    (roundFirst i now v).Keeps fun w => Attended i v.server w.server := by
  unfold roundFirst
  split_ifs
  · dsimp only
    split_ifs
    · exact Attended.refl i v.server
    · rcases checkTimeouts v.server i now none with e | remaining
      · exact Attended.refl i v.server
      · exact Attended.refl i v.server
  · exact Attended.refl i v.server

theorem roundReceive_attended (now : ℤ) (answers : ReceiveTrafficAnswers) :
    (roundReceive i now answers v).Keeps fun w => Attended i v.server w.server := by
  unfold roundReceive
  split_ifs
  · refine (serverReceiveTraffic_attends now answers).andThen (fun _ w hw => ?_) fun _ hw => hw.attended
    split_ifs
    · exact (assertAll_keeps (P := fun w => Attends i v.server w.server) _ hw).andThen
        (fun _ w hw => hw.attended.trans finalizeClient_attended) fun _ hw => hw.attended
    · exact hw.attended
  · exact Attended.refl i v.server

theorem roundParse_attended (now : ℤ) (answers : ProcessAnswers) (shutdown : ShutdownAnswers) :
    (roundParse i now answers shutdown v).Keeps fun w => Attended i v.server w.server := by
  unfold roundParse
  split_ifs
  · refine (Outcome.Keeps.mapState (P := fun t => Attends i v.server t)
      (Q := fun w : Visit => Attends i v.server w.server) (serverProcessTraffic_attends now answers)
        fun _ => id).andThen (fun _ w hw => ?_) fun _ hw => hw.attended
    dsimp only
    split_ifs
    · exact Outcome.Keeps.mapState (hw.onClient _) fun _ ht => ht.attended
    · exact hw.attended
  · exact Attended.refl i v.server

theorem roundSend_attended (now : ℤ) (answers : SendAnswers) :
    (roundSend i now answers v).Keeps fun w => Attended i v.server w.server := by
  unfold roundSend
  split_ifs
  · refine (serverSendTraffic_attends now answers).andThen (fun _ w hw => ?_) fun _ hw => hw.attended
    split_ifs
    · exact (assertAll_keeps (P := fun w => Attends i v.server w.server) _ hw).andThen
        (fun _ w hw => hw.attended.trans finalizeClient_attended) fun _ hw => hw.attended
    · exact hw.attended
  · exact Attended.refl i v.server

theorem serverProcessClientRound_attended (now : ℤ) (answers : RoundAnswers) :
    (serverProcessClientRound i now answers v).Keeps fun w => Attended i v.server w.server := by
  have hblocks : (roundBlocks i now answers v).Keeps fun w => Attended i v.server w.server := by
    unfold roundBlocks
    refine (roundFirst_attended now).andThen (fun _ w hw => ?_) fun _ => id
    refine ((roundReceive_attended now answers.receive).mono fun _ => hw.trans).andThen
      (fun finalized w hw => ?_) fun _ => id
    split_ifs
    · exact hw
    refine ((roundParse_attended now answers.process answers.shutdown).mono fun _ =>
      hw.trans).andThen (fun _ w hw => ?_) fun _ => id
    exact (roundSend_attended now answers.send).mono fun _ => hw.trans
  unfold serverProcessClientRound
  refine hblocks.handle (fun _ _ hw => hw) fun e w hw => ?_
  dsimp only
  split_ifs
  · have hprinted : Attended i v.server (w.server.emit (.errorPrinted e.error)) := hw.trans .tables
    exact Outcome.Keeps.mapState (P := fun t => Attended i v.server t)
      (Outcome.keeps_mapState _ fun client =>
        hprinted.trans ((Attends.refl i _).setClient client).attended) fun _ => id
  · exact hw

theorem failureActions_attended (taken : ℕ) (e : ExError) :
    (failureActions i taken e s).Keeps fun t => Attended i s t := by
  have hfixed : Attended i s (sendFixed i taken e s) := by
    unfold sendFixed
    dsimp only
    split_ifs
    · exact .tables
    · exact .tables
    · exact .refl i s
  have hend : ∀ (p : Prop) [Decidable p] (t : Server), Attended i s t →
      Attended i s (if p then finalizeClient i t else t) := by
    intro p _ t ht
    split_ifs
    · exact ht.trans finalizeClient_attended
    · exact ht
  have hprint : ∀ (p : Prop) [Decidable p] (t : Server), Attended i s t →
      Attended i s (if p then t.emit (.errorPrinted e.error) else t) := by
    intro p _ t ht
    split_ifs
    · exact ht.trans .tables
    · exact ht
  have hdone := hprint (e.has partialEefLog = true) _ (hend (e.has partialEefClose = true) _
    (hend (e.has partialEefShutdown = true) _ hfixed))
  unfold failureActions
  dsimp only
  split_ifs at hdone ⊢ <;> exact hdone

theorem serverProcessClientLoop_attended (now remaining : ℤ) (answers : VisitAnswers) (fuel k : ℕ) :
    (serverProcessClientLoop i now remaining answers fuel k v).Keeps
      fun t => Attended i v.server t := by
  induction fuel generalizing k v with
  | zero => exact trivial
  | succ fuel ih =>
    rw [serverProcessClientLoop]
    have hround := serverProcessClientRound_attended (v := { v with doneSomething := false }) (i := i) now
      (answers.rounds k)
    refine hround.handle (fun _ w hw => ?_) fun e w hw => ?_
    · split_ifs
      · exact (ih (k + 1)).mono fun _ => hw.trans
      · show Attended i v.server (prepareToWait i now remaining w.server).1
        rw [prepareToWait_fst]
        split_ifs
        · exact hw.trans .tables
        · exact hw
    · exact ((failureActions_attended answers.taken e).mono fun _ => hw.trans).andThen
        (fun _ _ => id) fun _ => id

theorem serverProcessClient_attended (now remaining : ℤ) (answers : VisitAnswers) (fuel : ℕ) :
    (serverProcessClient i now remaining answers fuel s).Keeps fun t => Attended i s t :=
  serverProcessClientLoop_attended (v := startVisit i s) now remaining answers fuel 0

end

end Twinkleshine
