import Twinkleshine.Server.Intake
import Twinkleshine.Server.Limit
import Twinkleshine.Server.Rounds

/-!
# Delivery in every run

Connections that are not encrypted are accepted, visited in the order of the shuffle, and removed.
`Delivering` is the invariant of such runs: the short response stream belongs to nobody or to a live client,
and the books of every live client are right. It is kept as long as nobody fails while the short response
stream is theirs: the label `failure` finalizes the client, and `client_finalize` looks at the owner of the
message only, so the stream would keep an owner that is dead.
-/

namespace Twinkleshine

open Library

/-! ## Effects beside those of serving -/

/-- What is told beside the responses of a client: a fixed text, the end of its connection, or something
about nobody. -/
def Effect.Aside (birth : ℕ) (effect : Effect) : Prop :=
  effect.birth = none ∨ effect = .closed birth ∨ ∃ bytes, effect = .sentFixed birth bytes

section

variable {birth other : ℕ} {effects more : List Effect}

theorem history_aside_of_ne (h : ∀ effect ∈ more, effect.Aside birth) (hne : other ≠ birth) :
    history other (effects ++ more) = history other effects := by
  have hnothing : history other more = [] := by
    refine history_of_others fun effect heffect heq => ?_
    rcases h effect heffect with hnone | rfl | ⟨bytes, rfl⟩
    · rw [hnone] at heq
      cases heq
    · exact hne (Option.some.inj heq).symm
    · exact hne (Option.some.inj heq).symm
  rw [history_append, hnothing, List.append_nil]

/-- Nothing is generated and nothing of a response is sent. -/
theorem SentFromFront.aside (h : SentFromFront other effects) (hmore : ∀ effect ∈ more, effect.Aside birth) :
    SentFromFront other (effects ++ more) := by
  have hkind : ∀ effect ∈ history other more, effect = .closed birth ∨
      ∃ bytes, effect = .sentFixed birth bytes := by
    intro effect heffect
    obtain ⟨hmem, hbirth⟩ := List.mem_filter.mp heffect
    rcases hmore effect hmem with hnone | hkind
    · rw [decide_eq_true_iff, hnone] at hbirth
      cases hbirth
    · exact hkind
  have hsent : sentIn (history other more) = [] := by
    refine List.flatMap_eq_nil_iff.mpr fun effect heffect => ?_
    rcases hkind effect heffect with rfl | ⟨bytes, rfl⟩ <;> rfl
  have hgenerated : generatedIn (history other more) = [] := by
    refine List.filterMap_eq_nil_iff.mpr fun effect heffect => ?_
    rcases hkind effect heffect with rfl | ⟨bytes, rfl⟩ <;> rfl
  rw [SentFromFront, history_append, sentIn_append, generatedIn_append, hsent, hgenerated, List.append_nil,
    List.append_nil]
  exact h

end

/-! ## Carried clients -/

/-- Client `j` of `s` is client `k` of `t`, with the same output and the same history. -/
structure Carried (j k : ℕ) (s t : Server) : Prop where
  client : ∃ shuffleIndex, t.client k = { s.client j with shuffleIndex := shuffleIndex }
  owns : t.owns k = s.owns j
  short : s.owns j = true → t.shortResponseStream = s.shortResponseStream ∧ t.buffers = s.buffers
  quiet : history (s.client j).birth t.effects = history (s.client j).birth s.effects

section

variable {i j k : ℕ} {s t u : Server}

/-- The client was not written. -/
theorem Carried.of_eq (hclient : t.client k = s.client j) (howns : t.owns k = s.owns j)
    (hshort : s.owns j = true → t.shortResponseStream = s.shortResponseStream ∧ t.buffers = s.buffers)
    (hquiet : history (s.client j).birth t.effects = history (s.client j).birth s.effects) :
    Carried j k s t :=
  ⟨⟨(s.client j).shuffleIndex, hclient⟩, howns, hshort, hquiet⟩

namespace Carried

theorem pending_eq (h : Carried j k s t) : t.pending k = s.pending j := by
  obtain ⟨shuffleIndex, hclient⟩ := h.client
  rw [Server.pending, Server.pending, Server.shortPending, Server.shortPending, h.owns, hclient]
  by_cases howns : s.owns j = true
  · obtain ⟨hstream, hbuffers⟩ := h.short howns
    rw [hstream, hbuffers]
  · rw [if_neg howns, if_neg howns]

theorem books (h : Carried j k s t) (hs : s.Books j) : t.Books k := by
  have hpending := h.pending_eq
  obtain ⟨shuffleIndex, hclient⟩ := h.client
  have hplain := hs.plain
  refine ⟨?_, ?_, ?_, ?_, ?_, ?_⟩
  · rw [hclient]
    exact hs.live
  · rw [hclient]
    exact hs.plaintext
  · rw [hclient]
    exact hs.connection
  · rw [hclient]
    exact ⟨hplain.operational, hplain.ssl, hplain.requests, hplain.parse, hplain.stream⟩
  · rw [hclient]
    exact hs.bounded
  · rw [hpending, hclient]
    show Ledger _ _ (history (s.client j).birth t.effects)
    rw [h.quiet]
    exact hs.ledger.congr ⟨rfl, rfl, rfl⟩ rfl

theorem queued (h : Carried j k s t) (hs : s.Queued j) : t.Queued k := by
  obtain ⟨shuffleIndex, hclient⟩ := h.client
  intro howns
  rw [hclient]
  exact hs (h.owns ▸ howns)

theorem owned (h : Carried j k s t) (hs : s.Owns j) (hk : k < t.clients.elements.length) : t.Owns k := by
  have howns : s.owns j = true := (hs.owns_eq j).mpr rfl
  obtain ⟨hstream, hbuffers⟩ := h.short howns
  obtain ⟨shuffleIndex, hclient⟩ := h.client
  refine ⟨Server.owns_iff.mp (h.owns.trans howns), hk, ?_, ?_, ?_, ?_, ?_⟩
  · rw [hclient]
    exact hs.live
  · rw [hclient]
    exact hs.plain
  · rw [hclient]
    exact hs.valid
  · rw [hclient]
    exact hs.empty
  · rw [hstream, hbuffers]
    exact hs.readable

end Carried

/-! ## The end of a client -/

/-- Client `i` was finalized, once or again: it is written, its poll may be, and what is told is aside. -/
structure Finished (i : ℕ) (s t : Server) : Prop where
  writes : ∃ polls more, t = { s.setClient i (s.client i).finalized with
    polls := polls, effects := s.effects ++ more } ∧ ∀ effect ∈ more, effect.Aside (s.client i).birth
  pollBirth : (t.ownPoll i).birth = (s.ownPoll i).birth

/-- Something is told aside first. -/
theorem Finished.tell {more : List Effect} (hmore : ∀ effect ∈ more, effect.Aside (s.client i).birth)
    (h : Finished i { s with effects := s.effects ++ more } t) : Finished i s t := by
  obtain ⟨polls, more', rfl, hmore'⟩ := h.writes
  refine ⟨⟨polls, more ++ more', ?_, fun effect heffect => ?_⟩, h.pollBirth⟩
  · rw [← List.append_assoc]
    rfl
  · exact (List.mem_append.mp heffect).elim (hmore effect) (hmore' effect)

/-- An error is printed at last. -/
theorem Finished.print (h : Finished i s t) (error : Error) : Finished i s (t.emit (.errorPrinted error)) := by
  obtain ⟨polls, more, rfl, hmore⟩ := h.writes
  refine ⟨⟨polls, more ++ [.errorPrinted error], ?_, fun effect heffect => ?_⟩, h.pollBirth⟩
  · rw [← List.append_assoc]
    rfl
  · rcases List.mem_append.mp heffect with heffect | heffect
    · exact hmore effect heffect
    · rw [List.mem_singleton.mp heffect]
      exact .inl rfl

theorem finalizeClient_finished (hi : i < s.clients.elements.length)
    (hnone : s.shortRequestMessageOwner = none) (hbirth : (s.ownPoll i).birth = (s.client i).birth) :
    Finished i s (finalizeClient i s) := by
  obtain ⟨polls, closed, heq, hclosed⟩ := finalizeClient_eq (i := i) hnone
  refine ⟨⟨polls, closed, heq, fun effect heffect => .inr (.inl ?_)⟩, (finalizeClient_visited hi).pollBirth⟩
  rw [hclosed effect heffect, hbirth]

theorem Finished.client_eq (h : Finished i s t) (hi : i < s.clients.elements.length) :
    t.client i = (s.client i).finalized := by
  obtain ⟨polls, more, rfl, -⟩ := h.writes
  exact Server.client_setClient hi _

theorem Finished.again (h : Finished i s t) (hi : i < s.clients.elements.length)
    (hnone : s.shortRequestMessageOwner = none) (hbirth : (s.ownPoll i).birth = (s.client i).birth) :
    Finished i s (finalizeClient i t) := by
  have hclient := h.client_eq hi
  have hpoll := h.pollBirth
  have hlt : i < t.clients.elements.length := by
    obtain ⟨polls, more, rfl, -⟩ := h.writes
    exact List.length_set.symm ▸ hi
  have hagain : Finished i t (finalizeClient i t) := by
    refine finalizeClient_finished hlt ?_ ?_
    · obtain ⟨polls, more, rfl, -⟩ := h.writes
      exact hnone
    · rw [hpoll, hclient]
      exact hbirth
  obtain ⟨polls', more', heq, hmore'⟩ := hagain.writes
  rw [hclient] at heq hmore'
  obtain ⟨polls, more, rfl, hmore⟩ := h.writes
  refine ⟨⟨polls', more ++ more', ?_, fun effect heffect => ?_⟩, hagain.pollBirth.trans hpoll⟩
  · rw [heq, ← List.append_assoc]
    exact congrArg (fun clients : Buffer Client => { s with
      clients := clients, polls := polls', effects := s.effects ++ more ++ more' })
      (congrArg Server.clients (s.setClient_setClient i (s.client i).finalized (s.client i).finalized))
  · exact (List.mem_append.mp heffect).elim (hmore effect) (hmore' effect)

/-- The label `failure` finalizes the client, whatever its actions are, unless the server ends. -/
theorem failureActions_finished (hi : i < s.clients.elements.length)
    (hnone : s.shortRequestMessageOwner = none) (hbirth : (s.ownPoll i).birth = (s.client i).birth)
    {e : ExError} (hlives : e.has partialEefDie = false) {taken : ℕ}
    (h : failureActions i taken e s = .ok () t) : Finished i s t := by
  have hends := ExError.ends_of_not_die hlives
  -- a fixed response may be sent first, which is told of the client alone
  obtain ⟨more, hfixed, hmore⟩ : ∃ more, sendFixed i taken e s = { s with effects := s.effects ++ more } ∧
      ∀ effect ∈ more, effect.Aside (s.client i).birth := by
    have hone : ∀ (birth : ℕ) (bytes : List UInt8), birth = (s.client i).birth →
        ∃ more, s.emit (.sentFixed birth bytes) = { s with effects := s.effects ++ more } ∧
          ∀ effect ∈ more, effect.Aside (s.client i).birth := fun birth bytes heq =>
      ⟨[.sentFixed birth bytes], rfl, fun effect heffect =>
        .inr (.inr ⟨bytes, heq ▸ List.mem_singleton.mp heffect⟩)⟩
    unfold sendFixed pollIndex
    dsimp only
    split_ifs
    · exact hone _ _ hbirth
    · exact hone _ _ rfl
    · exact ⟨[], by rw [List.append_nil], fun effect heffect => absurd heffect List.not_mem_nil⟩
  unfold failureActions at h
  dsimp only at h
  rw [if_neg (by rw [hlives]; exact Bool.false_ne_true), hfixed] at h
  obtain ⟨-, rfl⟩ := Outcome.ok.inj h
  have hfinished : Finished i { s with effects := s.effects ++ more }
      (finalizeClient i { s with effects := s.effects ++ more }) := finalizeClient_finished hi hnone hbirth
  -- what is printed of the error changes nobody
  have hactions : ∀ t, Finished i { s with effects := s.effects ++ more } t →
      Finished i s (if e.has partialEefLog then t.emit (.errorPrinted e.error) else t) := by
    intro t ht
    split_ifs
    · exact (ht.print e.error).tell hmore
    · exact ht.tell hmore
  refine hactions _ ?_
  by_cases hshutdown : e.has partialEefShutdown = true
  · rw [if_pos hshutdown]
    split_ifs
    · exact hfinished.again hi hnone hbirth
    · exact hfinished
  · rw [if_neg hshutdown, if_pos (hends.resolve_left hshutdown)]
    exact hfinished

/-- The others are carried past the end of client `i`, if it does not own the short response stream. -/
theorem Finished.carried (h : Finished i s t) (hj : j ≠ i)
    (hne : (s.client j).birth ≠ (s.client i).birth) : Carried j j s t := by
  obtain ⟨polls, more, rfl, hmore⟩ := h.writes
  exact .of_eq (Server.client_setClient_of_ne s hj.symm _) rfl (fun _ => ⟨rfl, rfl⟩)
    (history_aside_of_ne hmore hne)

end

/-! ## The invariant -/

/-- The listening socket is one of connections that are not encrypted. -/
def acceptingSocketIsPlain (index : ℕ) : Bool :=
  acceptingSocketIsConnection index && !acceptingSocketIsEncrypted index

/-- Only at listening sockets of plain connections does anything arrive, and a client whose visit ends at
the label `failure` does not own the short response stream then. -/
def Undisturbed : Phase × Server → ServerInput → Prop
  | (.waiting _, _), .poll revents _ _ _ =>
    ∀ index < acceptingSockets, (revents index).pollIn = true → acceptingSocketIsPlain index = true
  | (.visiting now _ (place :: _), s), .visit answers _ =>
    ∀ e w, LoopFails (s.visited place) now answers 0 (startVisit (s.visited place) s) e w →
      w.server.owns (s.visited place) = false
  | _, _ => True

/-- The listening socket is one of plain connections, or nothing arrived there. -/
def Server.PlainAt (s : Server) (index : ℕ) : Prop :=
  index < acceptingSockets ∧ ((s.poll index).revents.pollIn = true → acceptingSocketIsPlain index = true)

/-- Who lives: everybody, until the visits begin; then those who were not visited yet, each of whom is
visited once. -/
def Living : Phase → Server → Prop
  | .visiting _ _ rest, s => (rest.map s.visited).Nodup ∧
    ∀ place ∈ rest, (s.client (s.visited place)).dead = false
  | .accepting _ _ rest, s => (∀ i < s.clients.elements.length, (s.client i).dead = false) ∧
    ∀ index ∈ rest, s.PlainAt index
  | .waiting _, s => ∀ i < s.clients.elements.length, (s.client i).dead = false

/-- The short response stream belongs to nobody or to a live client, the books of the live clients are
right, and nobody was ever sent anything but the front of the own responses. -/
structure Server.InOrder (s : Server) : Prop where
  owner : s.OwnerInv
  noMessage : s.shortRequestMessageOwner = none
  books : ∀ i < s.clients.elements.length, (s.client i).dead = false → s.Books i ∧ s.Queued i
  front : ∀ birth, SentFromFront birth s.effects
  unborn : ∀ birth, s.births ≤ birth → history birth s.effects = []

/-- The invariant of runs without a disturbance. -/
structure Delivering (state : Phase × Server) : Prop where
  order : state.2.InOrder
  living : Living state.1 state.2

section

variable {i : ℕ} {s t u : Server}

/-- Everybody who lives is carried, or comes with books that are right. -/
theorem Server.InOrder.carry (hs : s.InOrder) (hmessage : t.shortRequestMessageOwner = none)
    (hinherits : s.shortResponseStreamOwner = none → t.shortResponseStreamOwner = none)
    (hcarried : ∀ j < s.clients.elements.length, (s.client j).dead = false →
      ∃ k < t.clients.elements.length, Carried j k s t)
    (hcomes : ∀ k < t.clients.elements.length, (t.client k).dead = false →
      (∃ j < s.clients.elements.length, (s.client j).dead = false ∧ Carried j k s t) ∨
        t.Books k ∧ t.Queued k)
    (hfront : ∀ birth, SentFromFront birth t.effects)
    (hunborn : ∀ birth, t.births ≤ birth → history birth t.effects = []) : t.InOrder := by
  refine ⟨?_, hmessage, fun k hk hlive => ?_, hfront, hunborn⟩
  · rcases hs.owner with hnone | ⟨j, hj⟩
    · exact .inl (hinherits hnone)
    · obtain ⟨k, hk, hcarries⟩ := hcarried j hj.lt hj.live
      exact .inr ⟨k, hcarries.owned hj hk⟩
  · rcases hcomes k hk hlive with ⟨j, hj, hjlive, hcarries⟩ | hnew
    · obtain ⟨hbooks, hqueued⟩ := hs.books j hj hjlive
      exact ⟨hcarries.books hbooks, hcarries.queued hqueued⟩
    · exact hnew

/-! ## Accepting -/

/-- What was told since `s` is about nobody, or that this connection is closed. -/
def ToldAside (birth : ℕ) (s t : Server) : Prop :=
  ∃ more, t.effects = s.effects ++ more ∧ ∀ effect ∈ more, effect.birth = none ∨ effect = .closed birth

theorem ToldAside.of_eq {birth : ℕ} (h : t.effects = s.effects) : ToldAside birth s t :=
  ⟨[], h.trans (List.append_nil _).symm, fun _ heffect => absurd heffect List.not_mem_nil⟩

theorem ToldAside.emit {birth : ℕ} (h : ToldAside birth s t) {effect : Effect}
    (heffect : effect.birth = none ∨ effect = .closed birth) : ToldAside birth s (t.emit effect) := by
  obtain ⟨more, hmore, hall⟩ := h
  refine ⟨more ++ [effect], ?_, fun other hother => ?_⟩
  · rw [Server.emit, hmore, List.append_assoc]
  · rcases List.mem_append.mp hother with hother | hother
    · exact hall other hother
    · rw [List.mem_singleton.mp hother]
      exact heffect

theorem acceptFailure_aside {birth other : ℕ} (h : ToldAside other s t) (oldSize : ℕ) {opened : Bool}
    (hopened : opened = true → other = birth) (e : ExError) :
    (acceptFailure oldSize opened birth e t).Keeps fun u => ToldAside other s u := by
  have hclosed : ToldAside other s (if opened then t.emit (.closed birth) else t) := by
    split_ifs with hopen
    · exact h.emit (.inr (by rw [hopened hopen]))
    · exact h
  unfold acceptFailure
  generalize (if opened then t.emit (.closed birth) else t) = u at hclosed
  by_cases hdie : e.has partialEefDie = true
  · rw [if_pos hdie]
    exact hclosed
  rw [if_neg hdie]
  by_cases hlog : e.has partialEefLog = true
  · rw [if_pos hlog]
    exact hclosed.emit (.inl rfl)
  · rw [if_neg hlog]
    exact hclosed

/-- Whatever comes of a connection, what is told is about nobody who was there. -/
theorem serverAcceptConnection_aside {index : ℕ} {load : ServerLoad} {now : ℤ} {answers : AcceptAnswers}
    {birth : ℕ} (hbirth : answers.accepted.isSome = true → birth = s.births) :
    (serverAcceptConnection index load now answers s).Keeps fun t => ToldAside birth s t := by
  unfold serverAcceptConnection
  rcases hanswer : answers.accepted with _ | ⟨fd, address⟩
  · exact acceptFailure_aside (.of_eq rfl) _ (fun h : false = true => Bool.noConfusion h) _
  rw [hanswer] at hbirth
  obtain rfl := hbirth rfl
  dsimp only
  set counted : Server := { s with births := s.births + 1 }
  have hcounted : ToldAside s.births s counted := .of_eq rfl
  split_ifs
  · unfold serverSendLowResourcesConnection
    have hrefused : ToldAside s.births s ((counted.emit (.refused ((failsafeText index
        (serverLowResourcesResponse load)).take (answers.refusal.getD 0)))).emit (.closed s.births)) :=
      (hcounted.emit (.inl rfl)).emit (.inr rfl)
    dsimp only
    split_ifs
    · exact hcounted
    · exact hrefused
    · exact hrefused.emit (.inl rfl)
  · rcases initializeClient index answers.cryptography (newClient index address now s.births) with
      ⟨_, client⟩ | ⟨e, client⟩ | _
    · refine (pollsAppend_meets answers.polls _ counted).handle (fun _ t ht => ?_) fun e t ht => ?_
      · obtain ⟨-, polls, rfl, -⟩ := ht
        refine (clientsAppend_meets answers.clients client _).handle (fun _ t ht => ?_) fun e t ht => ?_
        · obtain ⟨-, clients, rfl, -⟩ := ht
          exact hcounted
        · rw [ht.2]
          exact acceptFailure_aside (.of_eq rfl) _ (fun _ => rfl) _
      · rw [ht.2]
        exact acceptFailure_aside hcounted _ (fun _ => rfl) _
    · exact acceptFailure_aside hcounted _ (fun _ => rfl) _
    · exact trivial
  · exact acceptFailure_aside hcounted _ (fun _ => rfl) _

/-- The owner stays the same client when the table is moved to this block, or stays where it is. -/
theorem Server.OwnerInv.owns_eq (hs : s.OwnerInv)
    (howner : t.shortResponseStreamOwner = s.shortResponseStreamOwner.map (·.moveTo t.clients.p) ∨
      t.shortResponseStreamOwner = s.shortResponseStreamOwner ∧ t.clients.p = s.clients.p) (j : ℕ) :
    t.owns j = s.owns j ∧ (s.shortResponseStreamOwner = none → t.shortResponseStreamOwner = none) := by
  rcases hs with hnone | ⟨k, hk⟩
  · have hnone' : t.shortResponseStreamOwner = none := by
      rcases howner with hmoved | ⟨hsame, -⟩
      · rw [hmoved, hnone]
        rfl
      · rw [hsame, hnone]
    exact ⟨(Server.owns_of_none hnone' j).trans (Server.owns_of_none hnone j).symm, fun _ => hnone'⟩
  · have hpointer : t.shortResponseStreamOwner = some (t.pointer k) := by
      rcases howner with hmoved | ⟨hsame, hblock⟩
      · rw [hmoved, hk.owner]
        rfl
      · rw [hsame, hk.owner, Server.pointer, Server.pointer, hblock]
    refine ⟨?_, fun hnone => absurd (hnone.symm.trans hk.owner)
      (Option.some_ne_none _).symm⟩
    rw [Bool.eq_iff_iff, hk.owns_eq, Server.owns_iff, hpointer, Option.some.injEq, Server.pointer_inj]
    exact eq_comm

/-- A connection that is made without encryption has books. -/
theorem Admitted.books {index : ℕ} {address : Address} {now : ℤ} {poll : Poll}
    (h : Admitted s t { newClient index address now s.births with cryptographyState := .operational } poll)
    (hs : s.InOrder) (hplain : acceptingSocketIsPlain index = true) :
    t.Books s.clients.elements.length ∧ t.Queued s.clients.elements.length := by
  rw [acceptingSocketIsPlain, Bool.and_eq_true, Bool.not_eq_true'] at hplain
  have hclient := h.client_length
  have howns : t.owns s.clients.elements.length = false := by
    rw [(hs.owner.owns_eq (.inl h.owner) _).1]
    refine Bool.eq_false_iff.mpr fun howned => ?_
    exact Nat.lt_irrefl _ (hs.owner.of_owns howned).lt
  have hpending : t.pending s.clients.elements.length = [] := by
    rw [Server.pending_of_not_owns howns, hclient]
    rfl
  refine ⟨⟨?_, ?_, ?_, ?_, ?_, ?_⟩, fun howned => absurd (howned.symm.trans howns) Bool.noConfusion⟩
  · rw [hclient]
    rfl
  · rw [hclient]
    exact hplain.2
  · rw [hclient]
    exact hplain.1
  · rw [hclient]
    exact ⟨rfl, rfl, Ring.zero_valid, fun _ => Progress.zero_parseInv _ _, Ring.zero_valid⟩
  · rw [hclient]
    exact Nat.zero_le _
  · rw [hpending, hclient, h.effects]
    show Ledger _ _ (history s.births s.effects)
    rw [hs.unborn s.births (Nat.le_refl _)]
    exact Ledger.new index address now s.births .operational

/-- What is told aside about who comes changes nobody's history. -/
theorem ToldAside.history_eq {birth other : ℕ} (h : ToldAside birth s t) (hne : other ≠ birth) :
    history other t.effects = history other s.effects := by
  obtain ⟨more, hmore, hall⟩ := h
  rw [hmore, history_aside_of_ne (fun effect heffect => (hall effect heffect).imp_right Or.inl) hne]

theorem ToldAside.sentFromFront {birth other : ℕ} (h : ToldAside birth s t)
    (hs : SentFromFront other s.effects) : SentFromFront other t.effects := by
  obtain ⟨more, hmore, hall⟩ := h
  exact hmore ▸ hs.aside fun effect heffect => (hall effect heffect).imp_right Or.inl

theorem Server.Paired.birth_lt {j : ℕ} (h : s.Paired) (hj : j < s.clients.elements.length) :
    (s.client j).birth < s.births := by
  refine h.bound _ ?_
  rw [Server.client, List.getD_eq_getElem _ _ hj]
  exact List.getElem_mem hj

/-- Nobody came. -/
theorem Unadmitted.inOrder {born : ℕ} {closed : List ℕ} (h : Unadmitted s t born closed) (hs : s.InOrder)
    (hquiet : ∀ j < s.clients.elements.length,
      history (s.client j).birth t.effects = history (s.client j).birth s.effects)
    (hfront : ∀ birth, SentFromFront birth t.effects)
    (hunborn : ∀ birth, t.births ≤ birth → history birth t.effects = [])
    (hlive : ∀ i < s.clients.elements.length, (s.client i).dead = false) :
    t.InOrder ∧ ∀ i < t.clients.elements.length, (t.client i).dead = false := by
  have hclient : ∀ j, t.client j = s.client j := fun j => by
    rw [Server.client, Server.client, h.clients]
  have howner : t.shortResponseStreamOwner = s.shortResponseStreamOwner.map (·.moveTo t.clients.p) ∨
      t.shortResponseStreamOwner = s.shortResponseStreamOwner ∧ t.clients.p = s.clients.p :=
    h.owner.elim (fun hsame => .inr ⟨hsame, h.block⟩) fun hmoved => .inl (h.block ▸ hmoved)
  have hcarried : ∀ j < s.clients.elements.length, Carried j j s t := fun j hj =>
    .of_eq (hclient j) (hs.owner.owns_eq howner j).1 (fun _ => ⟨h.stream, h.buffers⟩) (hquiet j hj)
  have hmessage : t.shortRequestMessageOwner = none := by
    rcases h.messageOwner with hnone | hnone
    · rw [hnone, hs.noMessage]
    · rw [hnone, hs.noMessage]
      rfl
  refine ⟨hs.carry hmessage (hs.owner.owns_eq howner 0).2
    (fun j hj _ => ⟨j, h.clients ▸ hj, hcarried j hj⟩) (fun k hk hlives => ?_) hfront hunborn, fun i hi => ?_⟩
  · rw [h.clients] at hk
    exact .inl ⟨k, hk, hclient k ▸ hlives, hcarried k hk⟩
  · rw [h.clients] at hi
    exact hclient i ▸ hlive i hi

/-- A connection that is not encrypted came. -/
theorem Admitted.inOrder {index : ℕ} {address : Address} {now : ℤ} {poll : Poll}
    (h : Admitted s t { newClient index address now s.births with cryptographyState := .operational } poll)
    (hs : s.InOrder) (hplain : acceptingSocketIsPlain index = true)
    (hmessage : t.shortRequestMessageOwner = none)
    (hlive : ∀ i < s.clients.elements.length, (s.client i).dead = false) :
    t.InOrder ∧ ∀ i < t.clients.elements.length, (t.client i).dead = false := by
  have hlength : t.clients.elements.length = s.clients.elements.length + 1 := by
    rw [h.clients, List.length_append, List.length_singleton]
  have hcarried : ∀ j < s.clients.elements.length, Carried j j s t := fun j hj =>
    .of_eq (h.client_of_lt hj) (hs.owner.owns_eq (.inl h.owner) j).1
      (fun _ => ⟨h.stream, h.buffers⟩) (by rw [h.effects])
  have hnew := h.books hs hplain
  refine ⟨hs.carry hmessage (hs.owner.owns_eq (.inl h.owner) 0).2 (fun j hj _ => ⟨j, by omega, hcarried j hj⟩)
    (fun k hk hlives => ?_) (fun birth => ?_) (fun birth hbirth => ?_), fun i hi => ?_⟩
  · by_cases hold : k < s.clients.elements.length
    · exact .inl ⟨k, hold, hlive k hold, hcarried k hold⟩
    · obtain rfl : k = s.clients.elements.length := by omega
      exact .inr hnew
  · rw [h.effects]
    exact hs.front birth
  · rw [h.effects]
    rw [h.births] at hbirth
    exact hs.unborn birth (by omega)
  · by_cases hold : i < s.clients.elements.length
    · rw [h.client_of_lt hold]
      exact hlive i hold
    · obtain rfl : i = s.clients.elements.length := by omega
      exact hnew.1.live

/-- A connection that is not encrypted is accepted, or refused, or cannot be accepted. -/
theorem ConnectionServed.inOrder {index : ℕ} {load : ServerLoad} {now : ℤ} {answers : AcceptAnswers}
    (h : ConnectionServed index load now answers s t) (hs : s.InOrder) (hpaired : s.Paired)
    (hplain : acceptingSocketIsPlain index = true)
    (htold : ∀ birth, (answers.accepted.isSome = true → birth = s.births) → ToldAside birth s t)
    (hlive : ∀ i < s.clients.elements.length, (s.client i).dead = false) :
    t.InOrder ∧ ∀ i < t.clients.elements.length, (t.client i).dead = false := by
  have haside := htold s.births fun _ => rfl
  have hquiet : ∀ j < s.clients.elements.length,
      history (s.client j).birth t.effects = history (s.client j).birth s.effects := fun j hj =>
    haside.history_eq (hpaired.birth_lt hj).ne
  have hfront : ∀ other, SentFromFront other t.effects := fun other => haside.sentFromFront (hs.front other)
  rcases h with ⟨hnone, same⟩ | ⟨hsome, -, same⟩ | ⟨hsome, -, -, -, same⟩ |
    ⟨-, -, -, made, admitted, messageOwner⟩
  · refine same.inOrder hs hquiet hfront (fun other hother => ?_) hlive
    -- nobody was born, so what is told can be aside about anybody
    have hsome : answers.accepted.isSome ≠ true := by simp [hnone]
    rw [(htold (other + 1) fun h => absurd h hsome).history_eq (by omega)]
    rw [same.births] at hother
    exact hs.unborn other hother
  · refine same.inOrder hs hquiet hfront (fun other hother => ?_) hlive
    rw [same.births] at hother
    rw [haside.history_eq (by omega)]
    exact hs.unborn other (by omega)
  · refine same.inOrder hs hquiet hfront (fun other hother => ?_) hlive
    rw [same.births] at hother
    rw [haside.history_eq (by omega)]
    exact hs.unborn other (by omega)
  · unfold initializeClient at made
    have hencrypted : acceptingSocketIsEncrypted index = false := by
      rw [acceptingSocketIsPlain, Bool.and_eq_true, Bool.not_eq_true'] at hplain
      exact hplain.2
    rw [if_neg (by rw [Bool.not_eq_true]; exact hencrypted)] at made
    obtain ⟨-, rfl⟩ := Outcome.ok.inj made
    refine admitted.inOrder hs hplain ?_ hlive
    rw [messageOwner, hs.noMessage]
    rfl

/-! ## The shuffle and the compaction -/

theorem clientsShuffle_inOrder (choices : ℕ → ℕ) (hs : s.InOrder) : (clientsShuffle choices s).InOrder := by
  have hlength := length_clientsShuffle choices s
  have hcarried : ∀ j < s.clients.elements.length, Carried j j s (clientsShuffle choices s) := by
    intro j hj
    obtain ⟨shuffleIndex, -, hclient⟩ := client_clientsShuffle choices hj
    exact ⟨⟨shuffleIndex, hclient⟩, rfl, fun _ => ⟨rfl, rfl⟩, rfl⟩
  refine hs.carry hs.noMessage id (fun j hj _ => ⟨j, by omega, hcarried j hj⟩) (fun k hk hlive => ?_)
    hs.front hs.unborn
  rw [hlength] at hk
  obtain ⟨shuffleIndex, -, hclient⟩ := client_clientsShuffle choices hk
  rw [hclient] at hlive
  exact .inl ⟨k, hk, hlive, hcarried k hk⟩

/-- The pass goes through the clients as they were shuffled. -/
theorem map_visited_range (choices : ℕ → ℕ) (s : Server) :
    (List.range s.clients.elements.length).map (clientsShuffle choices s).visited
      = shuffledIndices choices s.clients.elements.length := by
  refine List.ext_getElem? fun place => ?_
  by_cases hplace : place < s.clients.elements.length
  · obtain ⟨shuffleIndex, hindex, hclient⟩ := client_clientsShuffle choices hplace
    rw [List.getElem?_map, List.getElem?_range hplace, hindex, Option.map_some, Server.visited, hclient]
  · have hnot := Nat.not_lt.mp hplace
    rw [List.getElem?_eq_none (by rwa [List.length_map, List.length_range]),
      List.getElem?_eq_none (by rwa [length_shuffledIndices])]

/-- Everybody who lives will be visited once. -/
theorem clientsShuffle_living (choices : ℕ → ℕ) (now remaining : ℤ)
    (hlive : ∀ i < s.clients.elements.length, (s.client i).dead = false) :
    Living (.visiting now remaining (List.range s.clients.elements.length)) (clientsShuffle choices s) := by
  refine ⟨?_, fun place hplace => ?_⟩
  · rw [map_visited_range]
    exact (shuffledIndices_perm choices _).nodup_iff.mpr List.nodup_range
  · have hlt := visited_clientsShuffle_lt choices (List.mem_range.mp hplace)
    obtain ⟨shuffleIndex, -, hclient⟩ := client_clientsShuffle choices hlt
    rw [hclient]
    exact hlive _ hlt

/-- The live clients stay, wherever they go, and the owner goes with them. -/
theorem clientsRemoveFinalized_inOrder (hs : s.InOrder) (hpaired : s.Paired) :
    (clientsRemoveFinalized s).InOrder ∧ ∀ i < (clientsRemoveFinalized s).clients.elements.length,
      ((clientsRemoveFinalized s).client i).dead = false := by
  have hcompacted := clientsRemoveFinalized_compacted hpaired
  have hpaired' := hcompacted.paired hpaired rfl
  set t := clientsRemoveFinalized s
  -- who is where
  have hplace : ∀ j < s.clients.elements.length, (s.client j).dead = false →
      survivingPlace s.clients.elements j < t.clients.elements.length ∧
        t.client (survivingPlace s.clients.elements j) = s.client j := by
    intro j hj hlive
    have hget : s.clients.elements[j]? = some (s.client j) := by
      rw [Server.client, List.getD_eq_getElem _ _ hj, List.getElem?_eq_getElem hj]
    have hfound := getElem?_survivingPlace hget hlive
    rw [← hcompacted.clients] at hfound
    refine ⟨(List.getElem?_eq_some_iff.mp hfound).1, ?_⟩
    rw [Server.client, List.getD_eq_getElem?_getD, hfound, Option.getD_some]
  have hfrom : ∀ k < t.clients.elements.length, ∃ j < s.clients.elements.length,
      (s.client j).dead = false ∧ k = survivingPlace s.clients.elements j := by
    intro k hk
    have hmem : t.client k ∈ t.clients.elements := by
      rw [Server.client, List.getD_eq_getElem _ _ hk]
      exact List.getElem_mem hk
    rw [hcompacted.clients, List.mem_filter, Bool.not_eq_true', Server.mem_clients_iff] at hmem
    obtain ⟨⟨j, hj, hclient⟩, hlive⟩ := hmem
    rw [← hclient] at hlive
    obtain ⟨hlt, hsame⟩ := hplace j hj hlive
    refine ⟨j, hj, hlive, hpaired'.birth_inj hk hlt ?_⟩
    rw [hsame, hclient]
  -- the short stream stays with its owner, and with nobody if it had none
  have howner : ∀ j, s.Owns j → t.shortResponseStreamOwner
      = some (t.pointer (survivingPlace s.clients.elements j)) := by
    intro j hj
    have hget : s.clients.elements[j]? = some (s.client j) := by
      rw [Server.client, List.getD_eq_getElem _ _ hj.lt, List.getElem?_eq_getElem hj.lt]
    exact (clientsRemoveFinalized_designates hpaired ⟨hj.owner, _, hget, hj.live, rfl⟩).1
  have hnobody : s.shortResponseStreamOwner = none → t.shortResponseStreamOwner = none := by
    intro hnone
    show (removeFinalized s.clients.p 0 0 s.clients.elements
      (s.polls.elements.drop acceptingSockets) s.shortResponseStreamOwner).2.2 = none
    rw [hnone]
    exact removeFinalized_owner_of_not _ _ _ fun _ _ _ _ => (Option.some_ne_none _).symm
  have howns : ∀ j < s.clients.elements.length, (s.client j).dead = false →
      t.owns (survivingPlace s.clients.elements j) = s.owns j := by
    intro j hj hlive
    rcases hs.owner with hnone | ⟨i, hi⟩
    · rw [Server.owns_of_none hnone, Server.owns_of_none (hnobody hnone)]
    · rw [Bool.eq_iff_iff, hi.owns_eq, Server.owns_iff, howner i hi, Option.some.injEq, Server.pointer_inj]
      refine ⟨fun hsame => hpaired.birth_inj hj hi.lt ?_, fun hsame => by rw [hsame]⟩
      rw [← (hplace j hj hlive).2, ← hsame, (hplace i hi.lt hi.live).2]
  -- so everybody who stays is carried to his place, with what is pending for him
  have hcarried : ∀ j < s.clients.elements.length, (s.client j).dead = false →
      Carried j (survivingPlace s.clients.elements j) s t := fun j hj hlive =>
    .of_eq (hplace j hj hlive).2 (howns j hj hlive) (fun _ => ⟨rfl, rfl⟩) rfl
  refine ⟨hs.carry hs.noMessage hnobody (fun j hj hlive => ⟨_, (hplace j hj hlive).1, hcarried j hj hlive⟩)
    (fun k hk _ => ?_) hs.front hs.unborn, fun k hk => ?_⟩
  · obtain ⟨j, hj, hlive, rfl⟩ := hfrom k hk
    exact .inl ⟨j, hj, hlive, hcarried j hj hlive⟩
  · obtain ⟨j, hj, hlive, rfl⟩ := hfrom k hk
    rw [(hplace j hj hlive).2]
    exact hlive

/-! ## Visits -/

/-- All is in order, but for the books of client `i`. -/
structure Server.InOrderBut (s : Server) (i : ℕ) : Prop where
  owner : s.OwnerInv
  noMessage : s.shortRequestMessageOwner = none
  books : ∀ j < s.clients.elements.length, j ≠ i → (s.client j).dead = false → s.Books j ∧ s.Queued j
  front : ∀ birth, SentFromFront birth s.effects
  unborn : ∀ birth, s.births ≤ birth → history birth s.effects = []
  apart : ∀ j < s.clients.elements.length, j ≠ i → (s.client j).birth ≠ (s.client i).birth
  born : (s.client i).birth < s.births

/-- What happens while client `i` is served is about it alone. -/
theorem Server.InOrder.serve (hs : s.InOrder) (hpaired : s.Paired) (hi : i < s.clients.elements.length)
    (hspares : Spares i s u) (hattends : Attends i s u) (howner : u.OwnerInv)
    (hmessage : u.shortRequestMessageOwner = none) (hfront : SentFromFront (s.client i).birth u.effects) :
    u.InOrderBut i := by
  obtain ⟨more, hmore, hall⟩ := hspares.told
  have hborn : (s.client i).birth < s.births := hpaired.birth_lt hi
  have hquiet : ∀ other, other ≠ (s.client i).birth → history other u.effects = history other s.effects := by
    intro other hother
    have hnothing : history other more = [] := history_of_others fun effect heffect heq =>
      hother (Option.some.inj (heq.symm.trans (hall effect heffect)))
    rw [hmore, history_append, hnothing, List.append_nil]
  refine ⟨howner, hmessage, fun j hj hji hlive => ?_, fun other => ?_, fun other hother => ?_,
    fun j hj hji => ?_, ?_⟩
  · rw [hspares.length] at hj
    have hmoved := hspares.others j hji
    have hidentity := hmoved.identity
    obtain ⟨hbooks, hqueued⟩ := hs.books j hj (hidentity.dead ▸ hlive)
    refine ⟨hspares.books hpaired hi hj hji hbooks, fun howns => ?_⟩
    have hsame : (u.client j).responseCount = (s.client j).responseCount := hmoved.sameBooks.responseCount
    rw [hsame]
    exact hqueued (hattends.owns_of_ne hji howns)
  · by_cases hother : other = (s.client i).birth
    · rw [hother]
      exact hfront
    · rw [SentFromFront, hquiet other hother]
      exact hs.front other
  · rw [hspares.births] at hother
    rw [hquiet other (by omega)]
    exact hs.unborn other hother
  · rw [hspares.length] at hj
    rw [(hspares.others j hji).identity.birth, hspares.self.birth]
    exact fun heq => hji (hpaired.birth_inj hj hi heq)
  · rw [hspares.self.birth, hspares.births]
    exact hborn

theorem Server.InOrderBut.inOrder (h : s.InOrderBut i) (hbooks : s.Books i) (hqueued : s.Queued i) :
    s.InOrder := by
  refine ⟨h.owner, h.noMessage, fun j hj hlive => ?_, h.front, h.unborn⟩
  by_cases hji : j = i
  · rw [hji]
    exact ⟨hbooks, hqueued⟩
  · exact h.books j hj hji hlive

/-- A client that is finalized needs no books, but must not own the short response stream. -/
theorem Server.InOrderBut.finish (h : s.InOrderBut i) (hi : i < s.clients.elements.length)
    (howns : s.owns i = false) (hfinished : Finished i s t) : t.InOrder := by
  have hclient := hfinished.client_eq hi
  have hcarried : ∀ j < s.clients.elements.length, j ≠ i → Carried j j s t := fun j hj hji =>
    hfinished.carried hji (h.apart j hj hji)
  obtain ⟨polls, more, rfl, hmore⟩ := hfinished.writes
  have hsame : SameOutput (s.setClient i (s.client i).finalized)
      { s.setClient i (s.client i).finalized with polls := polls, effects := s.effects ++ more } :=
    ⟨rfl, rfl, rfl, rfl, rfl, fun _ => ⟨.refl _, rfl⟩⟩
  refine ⟨hsame.ownerInv (h.owner.setClient_of_not_owns howns _), h.noMessage, fun j hj hlive => ?_,
    fun other => ?_, fun other hother => ?_⟩
  · have hj' : j < s.clients.elements.length := List.length_set ▸ hj
    by_cases hji : j = i
    · rw [hji, hclient] at hlive
      cases hlive
    · have hcarries := hcarried j hj' hji
      obtain ⟨shuffleIndex, hsame⟩ := hcarries.client
      rw [hsame] at hlive
      obtain ⟨hbooks, hqueued⟩ := h.books j hj' hji hlive
      exact ⟨hcarries.books hbooks, hcarries.queued hqueued⟩
  · exact (h.front other).aside hmore
  · have hother : s.births ≤ other := hother
    have hborn := h.born
    show history other (s.effects ++ more) = []
    rw [history_aside_of_ne hmore (by omega)]
    exact h.unborn other hother

/-- What is polled for is no matter. -/
theorem prepareToWait_inOrder (hs : s.InOrder) (now remaining : ℤ) :
    (prepareToWait i now remaining s).1.InOrder := by
  rw [prepareToWait_fst]
  split_ifs
  · have hsame : SameOutput s
        (s.setPoll (acceptingSockets + i) { s.ownPoll i with events := waitEvents i s }) :=
      ⟨rfl, rfl, rfl, rfl, rfl, fun _ => ⟨.refl _, rfl⟩⟩
    exact ⟨hsame.ownerInv hs.owner, hs.noMessage, fun j hj hlive => (hs.books j hj hlive).imp
      (fun hbooks => ⟨hbooks.live, hbooks.plaintext, hbooks.connection, hbooks.plain, hbooks.bounded,
        hbooks.ledger⟩) fun hqueued => hqueued, hs.front, hs.unborn⟩
  · exact hs

theorem Server.InOrder.ready (hs : s.InOrder) (hpaired : s.Paired) (hi : i < s.clients.elements.length)
    (hlive : (s.client i).dead = false) : s.Ready i :=
  ⟨hi, hs.owner, (hs.books i hi hlive).1, hpaired.poll_birth hi, (hs.books i hi hlive).2, hs.noMessage⟩

/-- A visit never ends the server, and leaves everything in order if the client does not fail while it owns
the short response stream. -/
theorem serverProcessClient_inOrder (hs : s.InOrder) (hpaired : s.Paired)
    (hi : i < s.clients.elements.length) (hlive : (s.client i).dead = false) (now remaining : ℤ)
    (answers : VisitAnswers) (fuel : ℕ) :
    (serverProcessClient i now remaining answers fuel s).Meets True
      (fun _ t => (∀ e w, LoopFails i now answers 0 (startVisit i s) e w → w.server.owns i = false) →
        t.InOrder) fun _ _ => False := by
  have hready := hs.ready hpaired hi hlive
  refine (serverProcessClientLoop_done (v := startVisit i s) now remaining answers fuel 0
    hready.refl).mono (fun _ t ht hunowned => ?_) fun _ _ => id
  have hserved : ∀ {u : Server}, ServedOn i s u → u.InOrderBut i := fun {u} hon =>
    hs.serve hpaired hi hon.served.spares hon.attends hon.ready.owner hon.ready.noMessage (by
      rw [← hon.served.spares.self.birth]
      exact hon.ready.books.ledger.sentFromFront hon.ready.books.connection)
  cases ht with
  | waits on =>
    exact prepareToWait_inOrder ((hserved on).inOrder on.ready.books on.ready.queued) now remaining
  | ends on unowned =>
    exact prepareToWait_inOrder ((hserved on).finish on.ready.lt unowned
      (finalizeClient_finished on.ready.lt on.ready.noMessage on.ready.pollBirth)) now remaining
  | @fails w e _ fails failed actions =>
    have hspares := failed.failed.spares
    have hlt : i < w.server.clients.elements.length := hspares.length ▸ hi
    have hpoll : (w.server.ownPoll i).birth = (w.server.client i).birth := by
      rw [Server.ownPoll, Server.poll, hspares.polls, hspares.self.birth]
      exact hready.pollBirth
    exact (hs.serve hpaired hi hspares failed.attends failed.failed.owner failed.noMessage
      failed.failed.front).finish hlt (hunowned e w fails)
        (failureActions_finished hlt failed.noMessage hpoll failed.lives actions)

/-! ## Steps -/

theorem pollAll_inOrder (revents : ℕ → PollEvents) (hs : s.InOrder) : (pollAll revents s).InOrder := by
  have hsame : SameOutput s (pollAll revents s) := ⟨rfl, rfl, rfl, rfl, rfl, fun _ => ⟨.refl _, rfl⟩⟩
  exact ⟨hsame.ownerInv hs.owner, hs.noMessage, fun j hj hlive => (hs.books j hj hlive).imp
    (fun hbooks => ⟨hbooks.live, hbooks.plaintext, hbooks.connection, hbooks.plain, hbooks.bounded,
      hbooks.ledger⟩) fun hqueued => hqueued, hs.front, hs.unborn⟩

theorem pollAll_plainAt {revents : ℕ → PollEvents} (hpaired : s.Paired)
    (hplain : ∀ index < acceptingSockets, (revents index).pollIn = true → acceptingSocketIsPlain index = true)
    {index : ℕ} (hindex : index < acceptingSockets) : (pollAll revents s).PlainAt index := by
  refine ⟨hindex, fun hready => hplain index hindex ?_⟩
  rwa [poll_pollAll _ (by rw [hpaired.size]; omega)] at hready

/-- What arrived at the other sockets is not lost when one is served. -/
theorem SocketServed.plainAt {index other : ℕ} {load : ServerLoad} {now : ℤ} {answers : SocketAnswers}
    (h : SocketServed index load now answers s t) (hpaired : s.Paired) (hplain : s.PlainAt other) :
    t.PlainAt other := by
  have hkept : t.poll other = s.poll other := by
    have hlt : other < s.polls.elements.length := by
      rw [hpaired.size]
      exact Nat.lt_add_left _ hplain.1
    have happended : ∀ {client : Client} {poll : Poll}, Admitted s t client poll →
        t.poll other = s.poll other := by
      intro client poll hadmitted
      rw [Server.poll, hadmitted.polls, List.getD_append _ _ _ _ hlt]
      rfl
    rcases h with ⟨rfl, -⟩ | ⟨-, served⟩ | ⟨-, -, -, served⟩
    · rfl
    · rcases served with ⟨-, same⟩ | ⟨-, -, same⟩ | ⟨-, -, -, -, same⟩ | ⟨-, -, -, -, admitted, -⟩
      · rw [Server.poll, Server.poll, same.polls]
      · rw [Server.poll, Server.poll, same.polls]
      · rw [Server.poll, Server.poll, same.polls]
      · exact happended admitted
    · rcases served with ⟨rfl⟩ | ⟨same⟩ | ⟨-, -, same, -⟩ | ⟨-, -, -, -, admitted, -⟩
      · rfl
      · rw [Server.poll, Server.poll, same.polls]
      · rw [Server.poll, Server.poll, same.polls]
        have := hplain.1
        rw [List.getD_eq_getElem?_getD, List.getD_eq_getElem?_getD, List.getElem?_set_ne (by omega)]
      · exact happended admitted
  refine ⟨hplain.1, ?_⟩
  rw [hkept]
  exact hplain.2

/-- A listening socket of plain connections is served, or is not ready. -/
theorem serverAcceptSocket_inOrder {index : ℕ} {load : ServerLoad} {now : ℤ} {answers : SocketAnswers}
    (hs : s.InOrder) (hpaired : s.Paired) (hplain : s.PlainAt index)
    (hlive : ∀ i < s.clients.elements.length, (s.client i).dead = false)
    (hserved : SocketServed index load now answers s t)
    (hreturns : serverAcceptSocket load now answers index s = .ok () t) :
    t.InOrder ∧ ∀ i < t.clients.elements.length, (t.client i).dead = false := by
  rcases hserved with ⟨rfl, -⟩ | ⟨hasked, hserved⟩ | ⟨hready, hmessage, -, -⟩
  · exact ⟨hs, hlive⟩
  · obtain ⟨hcalm, hready, hconnection⟩ := Server.acceptsAt_iff.mp hasked
    have haccept : serverAcceptConnection index load now answers.connection s = .ok () t := by
      rw [← hreturns, serverAcceptSocket, hcalm.1, hcalm.2, if_neg (by decide),
        if_neg (not_not.mpr hready), if_pos hconnection]
    refine hserved.inOrder hs hpaired (hplain.2 hready) (fun birth hbirth => ?_) hlive
    exact (serverAcceptConnection_aside hbirth).of_eq_ok haccept
  · have hconnection := hplain.2 hready
    rw [acceptingSocketIsPlain, hmessage] at hconnection
    cases hconnection

/-- Those who wait for their visit live on while another client is visited. -/
theorem Living.visited {now remaining remaining' : ℤ} {place : ℕ} {rest : List ℕ}
    (h : Living (.visiting now remaining (place :: rest)) s) (hvisited : Visited (s.visited place) s t) :
    Living (.visiting now remaining' rest) t := by
  obtain ⟨hnodup, hlive⟩ := h
  have hsame : rest.map t.visited = rest.map s.visited := List.map_congr_left fun place _ =>
    hvisited.visited_eq place
  rw [List.map_cons, List.nodup_cons] at hnodup
  refine ⟨hsame ▸ hnodup.2, fun other hother => ?_⟩
  have hne : s.visited other ≠ s.visited place := fun heq =>
    hnodup.1 (heq ▸ List.mem_map_of_mem hother)
  obtain ⟨stream, hstream⟩ := hvisited.others _ hne
  rw [hvisited.visited_eq, hstream]
  exact hlive other (List.mem_cons_of_mem _ hother)

/-- One step of a run without a disturbance. -/
theorem ServerStep.delivering {state state' : Phase × Server} {input : ServerInput}
    (h : ServerStep state input state') (htabled : Tabled state) (hs : Delivering state)
    (hundisturbed : Undisturbed state input) : Delivering state' := by
  obtain ⟨hpaired, hplaces⟩ := htabled
  obtain ⟨horder, hliving⟩ := hs
  cases h with
  | poll s remaining revents =>
    exact ⟨pollAll_inOrder revents horder, hliving, fun index hindex =>
      pollAll_plainAt hpaired hundisturbed (List.mem_range.mp hindex)⟩
  | @accept s t now load index rest answers returns =>
    obtain ⟨hlive, hplain⟩ := hliving
    have hserved := (serverAcceptSocket_cases hpaired.size index load now answers).of_eq_ok returns
    obtain ⟨horder', hlive'⟩ := serverAcceptSocket_inOrder horder hpaired (hplain index List.mem_cons_self)
      hlive hserved returns
    exact ⟨horder', hlive', fun other hother =>
      hserved.plainAt hpaired (hplain other (List.mem_cons_of_mem _ hother))⟩
  | shuffle s now load choices =>
    exact ⟨clientsShuffle_inOrder choices horder, clientsShuffle_living choices now intMax hliving.1⟩
  | @visit s t now remaining remaining' place rest answers fuel returns =>
    have hi := hplaces place List.mem_cons_self
    have hlive := hliving.2 place List.mem_cons_self
    have hvisited := (serverProcessClient_visited hi now remaining answers fuel).of_eq_ok returns
    refine ⟨?_, hliving.visited hvisited⟩
    have hdone := serverProcessClient_inOrder horder hpaired hi hlive now remaining answers fuel
    rw [returns] at hdone
    exact hdone hundisturbed
  | remove s now remaining =>
    obtain ⟨horder', hlive⟩ := clientsRemoveFinalized_inOrder horder hpaired
    exact ⟨horder', hlive⟩

theorem startState_delivering (polls : Buffer Poll) : Delivering (startState polls) := by
  refine ⟨⟨.inl rfl, rfl, fun i hi _ => ?_, fun birth => ?_, fun _ _ => rfl⟩, fun i hi => ?_⟩
  · exact absurd hi (Nat.not_lt_zero i)
  · exact List.nil_prefix
  · exact absurd hi (Nat.not_lt_zero i)

/-- In every run without a disturbance the books are right. -/
theorem serverRun_delivering {polls : Buffer Poll} (hpolls : polls.elements.length = acceptingSockets)
    {inputs : List ServerInput} {state : Phase × Server}
    (hrun : Runs (StepsWhere Undisturbed ServerStep) (startState polls) inputs state) :
    Tabled state ∧ Delivering state :=
  serverRun_invariant hpolls (startState_delivering polls)
    (fun _ _ _ htabled hs hundisturbed hstep => hstep.delivering htabled hs hundisturbed) hrun

end

/-! ## Delivery -/

section

variable {s : Server}

/-- In every run without a disturbance, passes and all: the short response stream is nobody's or that of a
live client with nothing else pending; nobody was sent anything but the front of the own responses; and what
a live client was sent, followed by what it has pending, is all that was generated for it. -/
theorem serverRun_delivers {polls : Buffer Poll} (hpolls : polls.elements.length = acceptingSockets)
    {inputs : List ServerInput} {phase : Phase}
    (hrun : Runs (StepsWhere Undisturbed ServerStep) (startState polls) inputs (phase, s)) :
    (s.shortResponseStreamOwner = none ∨ ∃ i, s.Owns i) ∧ (∀ birth, SentFromFront birth s.effects) ∧
      ∀ i < s.clients.elements.length, (s.client i).dead = false →
        sentIn (history (s.client i).birth s.effects) ++
            (s.shortPending i ++ ringContent (s.client i).responseStream)
          = texts (generatedIn (history (s.client i).birth s.effects)) := by
  have horder := (serverRun_delivering hpolls hrun).2.order
  refine ⟨horder.owner, horder.front, fun i hi hlive => ?_⟩
  have hbooks := (horder.books i hi hlive).1
  obtain ⟨entries, part, done, rest, hledger⟩ := hbooks.ledger
  exact hledger.sent_append_pending hbooks.connection

/-- In such a run no visit ends the server: the queue of nobody is popped while it is empty. -/
theorem serverRun_visit_survives {polls : Buffer Poll} (hpolls : polls.elements.length = acceptingSockets)
    {inputs : List ServerInput} {now remaining : ℤ} {place : ℕ} {rest : List ℕ}
    (hrun : Runs (StepsWhere Undisturbed ServerStep) (startState polls) inputs
      (.visiting now remaining (place :: rest), s)) (answers : VisitAnswers) (fuel : ℕ) (e : Error)
    (t : Server) : serverProcessClient (s.visited place) now remaining answers fuel s ≠ .error e t := by
  obtain ⟨htabled, horder, hliving⟩ := serverRun_delivering hpolls hrun
  intro herror
  have hdone := serverProcessClient_inOrder horder htabled.paired (htabled.places place List.mem_cons_self)
    (hliving.2 place List.mem_cons_self) now remaining answers fuel
  rw [herror] at hdone
  exact hdone

end

/-! ## A reader -/

/-- A visit does not reach the label `failure` in a round that returns. -/
theorem LoopFails.later_of_returns {i k : ℕ} {now : ℤ} {answers : VisitAnswers} {v u w : Visit} {e : ExError}
    (h : LoopFails i now answers k v e w)
    (hreturns : serverProcessClientRound i now (answers.rounds k) { v with doneSomething := false }
      = .ok () u) : u.doneSomething = true ∧ LoopFails i now answers (k + 1) u e w := by
  cases h with
  | now fails =>
    rw [hreturns] at fails
    cases fails
  | later returns doneSomething fails =>
    rw [hreturns] at returns
    obtain ⟨-, rfl⟩ := Outcome.ok.inj returns
    exact ⟨doneSomething, fails⟩

/-- `poll()` says that a reader of Nex connects. -/
def readerReady (k : ℕ) : PollEvents := if k = 12 then ⟨true, false, false, false⟩ else .none

/-- It sends a request, takes two bytes of the answer, and waits. -/
def readerVisit : VisitAnswers where
  rounds
    | 0 => { quietRound with
      receive := { quietRound.receive with stream := ⟨grantAll, .data 120 (ascii "\r\n"), .wouldBlock⟩ }
      send := ⟨⟨.took 2 (by decide), .wouldBlock⟩, ⟨.wouldBlock, .wouldBlock⟩⟩ }
    | _ => quietRound
  taken := 0

/-- It is connected, and will be visited. -/
theorem reader_connects {P : Server → Prop} [DecidablePred P]
    (h : (acceptSockets ⟨false, false, false⟩ 0 (fun _ => acceptedAnswers) (List.range acceptingSockets)
      (pollAll readerReady (.initial listening))).returnsIn (fun s => (s.clients.elements.length = 1 ∧
        P (clientsShuffle id s) : Prop)) = true) :
    ∃ inputs s, Runs (StepsWhere Undisturbed ServerStep) (startState listening) inputs
      (.visiting 0 intMax [0], s) ∧ P s := by
  obtain ⟨_, s₂, haccept, hcheck⟩ := Outcome.exists_of_returnsIn h
  obtain ⟨hlength, hP⟩ := of_decide_eq_true hcheck
  obtain ⟨accepts, hrun⟩ := acceptSockets_runs Undisturbed (fun rest s input => by cases input <;> trivial)
    haccept
  have hshuffle : ServerStep (.accepting 0 ⟨false, false, false⟩ [], s₂) (.shuffle id)
      (.visiting 0 intMax [0], clientsShuffle id s₂) := by
    have hstep := ServerStep.shuffle s₂ 0 ⟨false, false, false⟩ id
    rwa [hlength] at hstep
  refine ⟨.poll readerReady 0 false false :: (accepts ++ [.shuffle id]), _, ?_, hP⟩
  refine .cons ⟨fun index _ hready => ?_, .poll (.initial listening) intMax readerReady 0 false false⟩
    (hrun.append (.cons ⟨trivial, hshuffle⟩ (.nil _)))
  by_cases hindex : index = 12
  · rw [hindex]
    rfl
  · rw [readerReady, if_neg hindex] at hready
    cases hready

/-- Its visit will have one round in which something is done, and one in which nothing is. -/
theorem reader_begins : ∃ inputs s,
    Runs (StepsWhere Undisturbed ServerStep) (startState listening) inputs (.visiting 0 intMax [0], s) ∧
    (s.visited 0 = 0 ∧ s.clients.elements.length = 1 ∧ (s.client 0).encrypted = false ∧
      acceptingSocketIsConnection (s.client 0).acceptingSocket = true ∧ (s.client 0).dead = false) ∧
    (∃ v w, serverProcessClientRound 0 0 (readerVisit.rounds 0) (startVisit 0 s) = .ok () v ∧
      v.doneSomething = true ∧
      serverProcessClientRound 0 0 (readerVisit.rounds 1) { v with doneSomething := false } = .ok () w ∧
      w.doneSomething = false) ∧
    ∃ remaining t, serverProcessClient 0 0 intMax readerVisit 5 s = .ok remaining t ∧
      t.clients.elements.length = 1 ∧ (t.client 0).dead = false ∧
      sentIn (history (t.client 0).birth t.effects) = ascii "In" := by
  obtain ⟨inputs, s, hrun, hclient, hrounds, hvisit⟩ := reader_connects (P := fun s =>
    (s.visited 0 = 0 ∧ s.clients.elements.length = 1 ∧ (s.client 0).encrypted = false ∧
      acceptingSocketIsConnection (s.client 0).acceptingSocket = true ∧ (s.client 0).dead = false) ∧
      (serverProcessClientRound 0 0 (readerVisit.rounds 0) (startVisit 0 s)).returnsIn (fun v =>
        v.doneSomething = true ∧ (serverProcessClientRound 0 0 (readerVisit.rounds 1)
          { v with doneSomething := false }).returnsIn (fun w => w.doneSomething = false) = true) = true ∧
      (serverProcessClient 0 0 intMax readerVisit 5 s).returnsIn (fun t =>
        t.clients.elements.length = 1 ∧ (t.client 0).dead = false ∧
          sentIn (history (t.client 0).birth t.effects) = ascii "In") = true) (by decide +kernel)
  obtain ⟨_, v, hround, hnext⟩ := Outcome.exists_of_returnsIn hrounds
  obtain ⟨hbusy, hnext⟩ := of_decide_eq_true hnext
  obtain ⟨_, w, hround', hidle⟩ := Outcome.exists_of_returnsIn hnext
  obtain ⟨remaining, t, hreturns, hdone⟩ := Outcome.exists_of_returnsIn hvisit
  exact ⟨inputs, s, hrun, hclient, ⟨v, w, hround, hbusy, hround', of_decide_eq_true hidle⟩, remaining, t,
    hreturns, of_decide_eq_true hdone⟩

/-- A visit of two rounds that return does not reach the label `failure`. -/
theorem not_loopFails_of_two {i : ℕ} {now : ℤ} {answers : VisitAnswers} {u v w : Visit}
    (hround : serverProcessClientRound i now (answers.rounds 0) { u with doneSomething := false } = .ok () v)
    (hround' : serverProcessClientRound i now (answers.rounds 1) { v with doneSomething := false } = .ok () w)
    (hidle : w.doneSomething = false) (e : ExError) (x : Visit) : ¬ LoopFails i now answers 0 u e x := by
  intro hfails
  obtain ⟨hbusy, -⟩ := ((hfails.later_of_returns hround).2).later_of_returns hround'
  exact absurd (hbusy.symm.trans hidle) Bool.noConfusion

/-- It is visited, and did not take everything. -/
theorem reader_runs : ∃ inputs remaining t,
    Runs (StepsWhere Undisturbed ServerStep) (startState listening) inputs (.visiting 0 remaining [], t) ∧
    sentIn (history (t.client 0).birth t.effects) = ascii "In" := by
  obtain ⟨_, s, hsteps, ⟨hplace, -⟩, ⟨v, w, hround, -, hround', hidle⟩, remaining, t, hreturns, -, -, hsent⟩ :=
    reader_begins
  have hvisited : StepsWhere Undisturbed ServerStep (.visiting 0 intMax [0], s) (.visit readerVisit 5)
      (.visiting 0 remaining [], t) := by
    refine ⟨fun e u hfails => absurd ?_ (not_loopFails_of_two (u := startVisit 0 s) hround hround' hidle e u),
      .visit (by rw [hplace]; exact hreturns)⟩
    rwa [hplace] at hfails
  exact ⟨_, remaining, t, hsteps.concat hvisited, hsent⟩

/-- The reader was sent the front of the answer, and the rest of it is pending. -/
theorem serverRun_delivers_reader : ∃ inputs phase t,
    Runs (StepsWhere Undisturbed ServerStep) (startState listening) inputs (phase, t) ∧
    sentIn (history (t.client 0).birth t.effects) = ascii "In" ∧
    ((t.shortResponseStreamOwner = none ∨ ∃ i, t.Owns i) ∧ (∀ birth, SentFromFront birth t.effects) ∧
      ∀ i < t.clients.elements.length, (t.client i).dead = false →
        sentIn (history (t.client i).birth t.effects) ++
            (t.shortPending i ++ ringContent (t.client i).responseStream)
          = texts (generatedIn (history (t.client i).birth t.effects))) := by
  obtain ⟨inputs, remaining, t, hrun, hsent⟩ := reader_runs
  exact ⟨inputs, _, t, hrun, hsent, serverRun_delivers rfl hrun⟩

theorem serverRun_visit_survives_reader : ∃ inputs s,
    Runs (StepsWhere Undisturbed ServerStep) (startState listening) inputs (.visiting 0 intMax [0], s) ∧
    ∀ answers fuel e t, serverProcessClient (s.visited 0) 0 intMax answers fuel s ≠ .error e t := by
  obtain ⟨inputs, s, hrun, -⟩ := reader_begins
  exact ⟨inputs, s, hrun, fun answers fuel e t => serverRun_visit_survives rfl hrun answers fuel e t⟩

end Twinkleshine
