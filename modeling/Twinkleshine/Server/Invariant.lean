import Twinkleshine.Server.Ledger
import Twinkleshine.Server.Tables
import Twinkleshine.Session

/-!
# What holds while clients are served

`Server.pending` is the output of a client that was not sent yet, wherever it is kept. `OwnerInv` is the
invariant of the short response stream: its owner is alive, is not encrypted, and has nothing else
pending. `Spares i` says that serving client `i` leaves the others as they are; a flush of the short
response stream may move what is pending for them, but does not change it.
-/

namespace Twinkleshine

open Library

/-! ## Pending output -/

/-- Whether a client talks through OpenSSL. -/
def Client.encrypted (client : Client) : Bool :=
  acceptingSocketIsHttps client.acceptingSocket || acceptingSocketIsGemini client.acceptingSocket

/-- What a client has pending in the short response stream. -/
def Server.shortPending (s : Server) (i : ℕ) : List UInt8 :=
  if s.owns i then (s.shortResponseStream.read s.buffers).bytes else []

/-- What a client has pending. -/
def Server.pending (s : Server) (i : ℕ) : List UInt8 :=
  s.shortPending i ++ ringContent (s.client i).responseStream

/-- The short response stream can be read, and belongs to a live client that has nothing else pending
and is not encrypted. -/
structure Server.Owns (s : Server) (i : ℕ) : Prop where
  owner : s.shortResponseStreamOwner = some (s.pointer i)
  lt : i < s.clients.elements.length
  live : (s.client i).dead = false
  plain : (s.client i).encrypted = false
  valid : (s.client i).responseStream.Valid
  empty : (s.client i).responseStream.size = 0
  readable : valueSize (s.shortResponseStream.read s.buffers) = s.shortResponseStream.size

/-- The invariant of the short response stream. -/
def Server.OwnerInv (s : Server) : Prop :=
  s.shortResponseStreamOwner = none ∨ ∃ i, s.Owns i

/-- Nobody but the owner has anything in the short response stream. -/
theorem Server.Owns.owns_eq {s : Server} {i : ℕ} (h : s.Owns i) (j : ℕ) :
    s.owns j = true ↔ j = i := by
  rw [Server.owns_iff, h.owner, Option.some.injEq, Server.pointer_inj]
  exact eq_comm

theorem Server.Owns.content_eq_nil {s : Server} {i : ℕ} (h : s.Owns i) :
    ringContent (s.client i).responseStream = [] :=
  List.eq_nil_of_length_eq_zero (h.valid.length_content.trans h.empty)

/-- All the owner has pending is in the short response stream. -/
theorem Server.Owns.pending_eq {s : Server} {i : ℕ} (h : s.Owns i) :
    s.pending i = (s.shortResponseStream.read s.buffers).bytes := by
  rw [Server.pending, Server.shortPending, if_pos ((h.owns_eq i).mpr rfl), h.content_eq_nil,
    List.append_nil]

/-- A client that is not the owner has only its own stream. -/
theorem Server.pending_of_not_owns {s : Server} {i : ℕ} (h : s.owns i = false) :
    s.pending i = ringContent (s.client i).responseStream := by
  rw [Server.pending, Server.shortPending, if_neg (by simp [h]), List.nil_append]

/-- The size the program computes is that of what is pending. -/
theorem Server.OwnerInv.size_eq {s : Server} (h : s.OwnerInv) {i : ℕ}
    (hvalid : (s.client i).responseStream.Valid) :
    clientResponseStreamSize s i = (s.pending i).length := by
  rw [clientResponseStreamSize, Server.pending, Server.shortPending, List.length_append,
    hvalid.length_content, Nat.add_comm]
  rcases h with hnone | ⟨k, hk⟩
  · simp [Server.owns_of_none hnone]
  · by_cases hi : s.owns i = true
    · rw [if_pos hi, if_pos hi, ← hk.readable, valueSize_eq]
    · rw [if_neg hi, if_neg hi]
      rfl

/-! ## Others are spared -/

theorem Client.SameIdentity.encrypted_eq {c d : Client} (h : c.SameIdentity d) :
    d.encrypted = c.encrypted := by
  rw [Client.encrypted, Client.encrypted, h.acceptingSocket]

/-- What the flush of the short response stream may do to a client. -/
def Client.MovedStream (c d : Client) : Prop :=
  d = c ∨ ∃ stream : Ring, stream.Valid ∧ d = { c with responseStream := stream }

theorem Client.MovedStream.trans {c d e : Client} (h : c.MovedStream d) (h' : d.MovedStream e) :
    c.MovedStream e := by
  rcases h with rfl | ⟨stream, hstream, rfl⟩
  · exact h'
  · rcases h' with rfl | ⟨stream', hstream', rfl⟩
    · exact .inr ⟨stream, hstream, rfl⟩
    · exact .inr ⟨stream', hstream', rfl⟩

theorem Client.MovedStream.sameBooks {c d : Client} (h : c.MovedStream d) : SameBooks c d := by
  rcases h with rfl | ⟨stream, -, rfl⟩ <;> exact ⟨rfl, rfl, rfl⟩

/-- Client `i` was served: the table is the same, the other clients have what they had pending, and
whatever happened was about client `i`. -/
structure Spares (i : ℕ) (s t : Server) : Prop where
  block : t.clients.p = s.clients.p
  length : t.clients.elements.length = s.clients.elements.length
  polls : t.polls = s.polls
  births : t.births = s.births
  self : (s.client i).SameIdentity (t.client i)
  others : ∀ j, j ≠ i → (s.client j).MovedStream (t.client j)
  pending : ∀ j, j ≠ i → t.pending j = s.pending j
  told : ∃ more, t.effects = s.effects ++ more ∧
    ∀ effect ∈ more, effect.birth = some (s.client i).birth

theorem Spares.refl (i : ℕ) (s : Server) : Spares i s s :=
  ⟨rfl, rfl, rfl, rfl, .refl _, fun _ _ => .inl rfl, fun _ _ => rfl,
    ⟨[], (List.append_nil _).symm, fun _ h => absurd h List.not_mem_nil⟩⟩

theorem Spares.trans {i : ℕ} {s t u : Server} (h : Spares i s t) (h' : Spares i t u) :
    Spares i s u := by
  obtain ⟨more, hmore, hall⟩ := h.told
  obtain ⟨more', hmore', hall'⟩ := h'.told
  refine ⟨h'.block.trans h.block, h'.length.trans h.length, h'.polls.trans h.polls,
    h'.births.trans h.births, h.self.trans h'.self, fun j hj => (h.others j hj).trans (h'.others j hj),
    fun j hj => (h'.pending j hj).trans (h.pending j hj), more ++ more', ?_, ?_⟩
  · rw [hmore', hmore, List.append_assoc]
  · intro effect heffect
    rcases List.mem_append.mp heffect with heffect | heffect
    · exact hall effect heffect
    · rw [hall' effect heffect, h.self.birth]

/-- Client `i` alone was written. -/
theorem Spares.setClient {i : ℕ} {s : Server} {client : Client} (hi : i < s.clients.elements.length)
    (hsame : (s.client i).SameIdentity client) : Spares i s (s.setClient i client) := by
  have hothers : ∀ j, j ≠ i → (s.setClient i client).client j = s.client j := fun j hj =>
    Server.client_setClient_of_ne s hj.symm client
  refine ⟨rfl, List.length_set, rfl, rfl, ?_, fun j hj => .inl (hothers j hj), fun j hj => ?_,
    ⟨[], (List.append_nil _).symm, fun _ h => absurd h List.not_mem_nil⟩⟩
  · rw [Server.client_setClient hi]
    exact hsame
  · rw [Server.pending, hothers j hj]
    rfl

/-- Something happened that is about client `i`. -/
theorem Spares.tell {i : ℕ} {s : Server} {more : List Effect}
    (h : ∀ effect ∈ more, effect.birth = some (s.client i).birth) :
    Spares i s { s with effects := s.effects ++ more } :=
  ⟨rfl, rfl, rfl, rfl, .refl _, fun _ _ => .inl rfl, fun _ _ => rfl, ⟨more, rfl, h⟩⟩

theorem Spares.emit {i : ℕ} {s : Server} {effect : Effect}
    (heffect : effect.birth = some (s.client i).birth) : Spares i s (s.emit effect) :=
  .tell fun _ h => List.mem_singleton.mp h ▸ heffect

/-- Nobody else has anything in the short response stream, which is changed. -/
theorem Spares.short {i : ℕ} {s : Server} (h : ∀ j, j ≠ i → s.owns j = false)
    {stream : TextValue} {owner : Option ClientPointer} {buffers : InternalBuffers}
    (howner : owner = none ∨ owner = some (s.pointer i)) :
    Spares i s { s with
      shortResponseStream := stream, shortResponseStreamOwner := owner, buffers := buffers } := by
  refine ⟨rfl, rfl, rfl, rfl, .refl _, fun _ _ => .inl rfl, fun j hj => ?_,
    ⟨[], (List.append_nil _).symm, fun _ h => absurd h List.not_mem_nil⟩⟩
  rw [Server.pending_of_not_owns (h j hj), Server.pending_of_not_owns]
  · rfl
  · rcases howner with rfl | rfl
    · rfl
    · simpa [Server.owns, Server.pointer] using hj.symm

/-! ## The same output -/

/-- The output of all clients is the same, and they are the same clients. -/
structure SameOutput (s t : Server) : Prop where
  block : t.clients.p = s.clients.p
  length : t.clients.elements.length = s.clients.elements.length
  stream : t.shortResponseStream = s.shortResponseStream
  owner : t.shortResponseStreamOwner = s.shortResponseStreamOwner
  buffers : t.buffers = s.buffers
  clients : ∀ j, (s.client j).SameIdentity (t.client j) ∧
    (t.client j).responseStream = (s.client j).responseStream

section

variable {i : ℕ} {s t : Server}

theorem SameOutput.setClient (hi : i < s.clients.elements.length) {d : Client}
    (hsame : (s.client i).SameIdentity d) (hstream : d.responseStream = (s.client i).responseStream)
    (effects : List Effect) : SameOutput s { s.setClient i d with effects := effects } := by
  refine ⟨rfl, List.length_set, rfl, rfl, rfl, fun j => ?_⟩
  by_cases hj : j = i
  · have hclient : (s.setClient i d).client i = d := Server.client_setClient hi d
    rw [hj]
    refine ⟨?_, ?_⟩
    · show (s.client i).SameIdentity ((s.setClient i d).client i)
      rw [hclient]
      exact hsame
    · show ((s.setClient i d).client i).responseStream = _
      rw [hclient, hstream]
  · have hclient : (s.setClient i d).client j = s.client j :=
      Server.client_setClient_of_ne s (Ne.symm hj) d
    show (s.client j).SameIdentity ((s.setClient i d).client j) ∧
      ((s.setClient i d).client j).responseStream = (s.client j).responseStream
    rw [hclient]
    exact ⟨.refl _, rfl⟩

theorem SameOutput.emit (s : Server) (effect : Effect) : SameOutput s (s.emit effect) :=
  ⟨rfl, rfl, rfl, rfl, rfl, fun _ => ⟨.refl _, rfl⟩⟩

namespace SameOutput

theorem ownerInv (h : SameOutput s t) (hs : s.OwnerInv) : t.OwnerInv := by
  rcases hs with hnone | ⟨k, hk⟩
  · exact .inl (h.owner.trans hnone)
  obtain ⟨hsame, hstream⟩ := h.clients k
  refine .inr ⟨k, ?_, h.length ▸ hk.lt, hsame.dead.trans hk.live, ?_, hstream ▸ hk.valid, ?_, ?_⟩
  · rw [h.owner, hk.owner, Server.pointer, Server.pointer, h.block]
  · rw [hsame.encrypted_eq, hk.plain]
  · rw [hstream, hk.empty]
  · rw [h.stream, h.buffers, hk.readable]

theorem pending (h : SameOutput s t) (j : ℕ) : t.pending j = s.pending j := by
  have howns : t.owns j = s.owns j := by
    rw [Server.owns, Server.owns, h.owner, Server.pointer, Server.pointer, h.block]
  rw [Server.pending, Server.pending, Server.shortPending, Server.shortPending, howns, h.stream,
    h.buffers, (h.clients j).2]

end SameOutput

/-- What is written to a client that does not own the short response stream does not matter to it. -/
theorem Server.OwnerInv.setClient_of_not_owns (h : s.OwnerInv) (howns : s.owns i = false)
    (client : Client) : (s.setClient i client).OwnerInv := by
  rcases h with hnone | ⟨k, hk⟩
  · exact .inl hnone
  have hne : i ≠ k := by
    rintro rfl
    rw [(hk.owns_eq i).mpr rfl] at howns
    cases howns
  have hclient := Server.client_setClient_of_ne s hne client
  refine .inr ⟨k, hk.owner, ?_, ?_, ?_, ?_, ?_, hk.readable⟩
  · rw [Server.clients_setClient, List.length_set]
    exact hk.lt
  · rw [hclient, hk.live]
  · rw [hclient, hk.plain]
  · rw [hclient]
    exact hk.valid
  · rw [hclient, hk.empty]

end

/-! ## The flush -/

/-- `server_reserve_push_value` appends, or the allocator refuses and nothing changes. -/
theorem serverReservePushValue_meets {stream : Ring} (h : stream.Valid) (realloc : Realloc)
    (data : ConstantValue) :
    (serverReservePushValue realloc data stream).Meets True
      (fun _ r => r.Valid ∧ ringContent r = ringContent stream ++ data.bytes)
      fun e r => r = stream ∧ e.eef = .closeLog := by
  unfold serverReservePushValue
  refine (((ringReserve_meets h _ realloc).of_imp fun _ => trivial).mapError _).andThen
    (fun _ r hr => ?_) fun _ r hr => ?_
  · obtain ⟨hvalid, hcontent, hsize, hcapacity, -⟩ := hr
    rw [valueSize_eq] at hcapacity
    obtain ⟨r', hr', hvalid', hcontent', -⟩ := ringPushParts_ok hvalid data (hsize ▸ hcapacity)
    rw [hr']
    exact ⟨hvalid', hcontent'.trans (hcontent ▸ rfl)⟩
  · obtain ⟨e, rfl, rfl, -⟩ := hr
    exact ⟨rfl, rfl⟩

/-- What is pending stays pending, but nothing is kept in the short response stream. -/
structure Flushed (s t : Server) : Prop where
  block : t.clients.p = s.clients.p
  length : t.clients.elements.length = s.clients.elements.length
  polls : t.polls = s.polls
  births : t.births = s.births
  effects : t.effects = s.effects
  owner : t.shortResponseStreamOwner = none
  clients : ∀ j, (s.client j).MovedStream (t.client j)
  pending : ∀ j, t.pending j = s.pending j

theorem Client.MovedStream.identity {c d : Client} (h : c.MovedStream d) : c.SameIdentity d := by
  rcases h with rfl | ⟨stream, -, rfl⟩
  · exact .refl d
  · exact ⟨rfl, rfl, rfl, rfl, rfl⟩

theorem Flushed.spares {s t : Server} (h : Flushed s t) (i : ℕ) : Spares i s t :=
  ⟨h.block, h.length, h.polls, h.births, (h.clients i).identity, fun j _ => h.clients j,
    fun j _ => h.pending j, ⟨[], h.effects.trans (List.append_nil _).symm,
      fun _ h => absurd h List.not_mem_nil⟩⟩

/-- The flush moves what the owner has pending to its own stream. -/
theorem flushShortResponseStream_meets {s : Server} (hs : s.OwnerInv) (realloc : Realloc) :
    (flushShortResponseStream realloc s).Meets True (fun _ t => Flushed s t)
      fun e t => t = s ∧ e.eef = .closeLog := by
  unfold flushShortResponseStream
  rcases hs with hnone | ⟨i, hi⟩
  · rw [hnone]
    exact ⟨rfl, rfl, rfl, rfl, rfl, hnone, fun _ => .inl rfl, fun _ => rfl⟩
  · rw [hi.owner]
    dsimp only [Server.pointer]
    unfold Server.onClient
    have hpush := serverReservePushValue_meets hi.valid realloc
      (s.shortResponseStream.read s.buffers)
    refine ((hpush.mapState _).mapState _).andThen (fun _ t ht => ?_) fun e t ht => ?_
    · obtain ⟨_, rfl, stream, rfl, hvalid, hcontent⟩ := ht
      have hself : ∀ j, ((s.setClient i { s.client i with responseStream := stream }).client j)
          = if j = i then { s.client i with responseStream := stream } else s.client j := by
        intro j
        by_cases hj : j = i
        · rw [if_pos hj, hj, Server.client_setClient hi.lt]
        · rw [if_neg hj, Server.client_setClient_of_ne s (Ne.symm hj)]
      refine ⟨rfl, List.length_set, rfl, rfl, rfl, rfl, fun j => ?_, fun j => ?_⟩
      · refine Eq.mpr (congrArg _ (hself j)) ?_
        by_cases hj : j = i
        · rw [if_pos hj, hj]
          exact .inr ⟨stream, hvalid, rfl⟩
        · rw [if_neg hj]
          exact .inl rfl
      · rw [Server.pending_of_not_owns rfl]
        refine (congrArg (fun c : Client => ringContent c.responseStream) (hself j)).trans ?_
        by_cases hj : j = i
        · rw [if_pos hj, hj, hi.pending_eq, hcontent, hi.content_eq_nil, List.nil_append]
        · rw [if_neg hj, Server.pending_of_not_owns]
          exact Bool.eq_false_iff.mpr fun howns => hj ((hi.owns_eq j).mp howns)
    · obtain ⟨_, rfl, stream, rfl, rfl, he⟩ := ht
      exact ⟨s.setClient_client i, he⟩

end Twinkleshine
