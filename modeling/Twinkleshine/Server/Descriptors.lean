import Twinkleshine.Server.Limit

/-!
# The descriptors of connections

Reference: `source/server/accept.c`, `source/client.c`.

A descriptor that `accept()` returned belongs to the poll of the client that was made for it, and is
closed when that client is finalized. `server_send_low_resources_connection` closes the connections it
refuses, but returns before that where the refusal would have to be encrypted.
-/

namespace Twinkleshine

open Library

/-! ## One call -/

/-- How many polls of clients hold the descriptor that was accepted for this birth. -/
def Server.owners (s : Server) (birth : ℕ) : ℕ :=
  (s.polls.elements.drop acceptingSockets).countP fun poll => poll.fd.isSome && poll.birth == birth

/-- The descriptor is held by one poll, or was closed once. -/
def Server.Disposed (s : Server) (birth : ℕ) : Prop :=
  s.owners birth = 1 ∧ (closedIn s.effects).count birth = 0 ∨
    s.owners birth = 0 ∧ (closedIn s.effects).count birth = 1

instance (s : Server) (birth : ℕ) : Decidable (s.Disposed birth) := by
  unfold Server.Disposed
  infer_instance

/-- The refusal of this connection would have to be encrypted. -/
def RefusedEncrypted (index : ℕ) (load : ServerLoad) (answers : AcceptAnswers) : Prop :=
  answers.fcntl = true ∧ load.refuses = true ∧ acceptingSocketIsEncrypted index = true

instance (index : ℕ) (load : ServerLoad) (answers : AcceptAnswers) :
    Decidable (RefusedEncrypted index load answers) := by
  unfold RefusedEncrypted
  infer_instance

/-- Only descriptors that were accepted have been closed. -/
def Server.ClosedBelow (s : Server) : Prop := ∀ birth ∈ closedIn s.effects, birth < s.births

variable {s t : Server}

/-- Nobody holds what was not accepted yet. -/
theorem Server.Paired.owners_eq (hs : s.Paired) : s.owners s.births = 0 := by
  refine List.countP_eq_zero.mpr fun poll hpoll => ?_
  have hmem : poll.birth ∈ s.clients.elements.map Client.birth :=
    hs.births ▸ List.mem_map_of_mem hpoll
  obtain ⟨client, hclient, hbirth⟩ := List.mem_map.mp hmem
  have hlt := hs.bound client hclient
  have hne : poll.birth ≠ s.births := by omega
  simp [hne]

/-- A descriptor is disposed of, unless the connection is refused where the refusal would have to be
encrypted. -/
theorem ConnectionServed.disposed_iff {index : ℕ} {load : ServerLoad} {now : ℤ}
    {answers : AcceptAnswers} (h : ConnectionServed index load now answers s t) (hs : s.Paired)
    (hclosed : s.ClosedBelow) (haccepted : answers.accepted.isSome = true) :
    t.Disposed s.births ↔ ¬ RefusedEncrypted index load answers := by
  have hfresh : (closedIn s.effects).count s.births = 0 :=
    List.count_eq_zero.mpr fun hmem => Nat.lt_irrefl _ (hclosed _ hmem)
  have hsame : t.polls.elements = s.polls.elements → t.owners s.births = 0 := by
    intro hpolls
    rw [Server.owners, hpolls]
    exact hs.owners_eq
  rcases h with ⟨hnone, -⟩ | ⟨-, hkept, same⟩ | ⟨-, hfcntl, hrefuses, hencrypted, same⟩ |
    ⟨-, -, hadmits, -, hadmitted, -⟩
  · rw [hnone] at haccepted
    cases haccepted
  · obtain ⟨more, hmore, hmoreClosed⟩ := same.told
    refine iff_of_true (.inr ⟨hsame same.polls, ?_⟩) hkept
    rw [hmore, closedIn_append, List.count_append, hfresh, hmoreClosed, Nat.zero_add,
      List.count_singleton_self]
  · obtain ⟨more, hmore, hmoreClosed⟩ := same.told
    refine iff_of_false ?_ (not_not_intro ⟨hfcntl, hrefuses, hencrypted⟩)
    have hcount : (closedIn t.effects).count s.births = 0 := by
      rw [hmore, closedIn_append, List.count_append, hfresh, hmoreClosed, List.count_nil]
    rw [Server.Disposed, hsame same.polls, hcount]
    omega
  · have hsize := hs.size
    refine iff_of_true (.inl ⟨?_, ?_⟩) fun hrefused => ?_
    · have hold := hs.owners_eq
      rw [Server.owners] at hold
      rw [Server.owners, hadmitted.polls, List.drop_append_of_le_length (by omega),
        List.countP_append, hold, Nat.zero_add]
      simp
    · rw [hadmitted.effects, hfresh]
    · rw [hrefused.2.1] at hadmits
      cases hadmits

/-! ## Runs -/

/-- A client holds a descriptor: it lives, and is a connection. -/
def Client.holds (client : Client) : Bool :=
  !client.dead && acceptingSocketIsConnection client.acceptingSocket

/-- The live clients that are connections. -/
def Server.liveConnections (s : Server) : List Client := s.clients.elements.filter Client.holds

/-- The descriptors that a step opens. -/
def opens : Phase × Server → ServerInput → List ℕ
  | (.accepting _ _ (index :: _), s), .accept answers =>
    if s.acceptsAt index && answers.connection.accepted.isSome then [s.births] else []
  | _, _ => []

/-- A step of the server, with the descriptors that were opened so far. -/
structure DescriptorStep (state : (Phase × Server) × List ℕ) (input : ServerInput)
    (state' : (Phase × Server) × List ℕ) : Prop where
  server : ServerStep state.1 input state'.1
  opened : state'.2 = state.2 ++ opens state.1 input

/-- The descriptors that were opened, and not closed. -/
def openDescriptors (opened : List ℕ) (s : Server) : List ℕ :=
  opened.filter fun birth => birth ∉ closedIn s.effects

/-- No connection is refused where the refusal would have to be encrypted. -/
def NoneRefusedEncrypted : (Phase × Server) × List ℕ → ServerInput → Prop
  | ((.accepting _ load (index :: _), s), _), .accept answers =>
    s.acceptsAt index = true → answers.connection.accepted.isSome = true →
      ¬ RefusedEncrypted index load answers.connection
  | _, _ => True

/-- What was opened and not closed belongs to the live connections. -/
structure Described (opened : List ℕ) (s : Server) : Prop where
  nodup : opened.Nodup
  below : ∀ birth ∈ opened, birth < s.births
  once : (closedIn s.effects).Nodup
  closed : ∀ birth ∈ closedIn s.effects, birth ∈ opened
  held : ∀ birth, birth ∈ opened ∧ birth ∉ closedIn s.effects ↔
    ∃ i < s.clients.elements.length, (s.client i).holds = true ∧ (s.client i).birth = birth
  fds : ∀ i < s.clients.elements.length, (s.ownPoll i).fd.isSome = (s.client i).holds

/-! ## Clients by their indices -/

theorem Server.mem_clients_iff {client : Client} : client ∈ s.clients.elements ↔
    ∃ i < s.clients.elements.length, s.client i = client := by
  refine ⟨fun hclient => ?_, ?_⟩
  · obtain ⟨i, hi, rfl⟩ := List.getElem_of_mem hclient
    exact ⟨i, hi, List.getD_eq_getElem _ _ hi⟩
  · rintro ⟨i, hi, rfl⟩
    rw [Server.client, List.getD_eq_getElem _ _ hi]
    exact List.getElem_mem hi

theorem exists_client_iff {P : Client → Prop} :
    (∃ i < s.clients.elements.length, P (s.client i)) ↔ ∃ client ∈ s.clients.elements, P client := by
  refine ⟨fun ⟨i, hi, hP⟩ => ⟨_, Server.mem_clients_iff.mpr ⟨i, hi, rfl⟩, hP⟩, ?_⟩
  rintro ⟨client, hclient, hP⟩
  obtain ⟨i, hi, rfl⟩ := Server.mem_clients_iff.mp hclient
  exact ⟨i, hi, hP⟩

/-- The clients beside their polls. -/
def Server.pairs (s : Server) : List (Client × Poll) :=
  s.clients.elements.zip (s.polls.elements.drop acceptingSockets)

theorem Server.Paired.mem_pairs_iff (hs : s.Paired) {pair : Client × Poll} : pair ∈ s.pairs ↔
    ∃ i < s.clients.elements.length, pair = (s.client i, s.ownPoll i) := by
  have hsize := hs.size
  have hlength : s.pairs.length = s.clients.elements.length := by
    rw [Server.pairs, List.length_zip, List.length_drop]
    omega
  have hget : ∀ i < s.clients.elements.length, s.pairs[i]? = some (s.client i, s.ownPoll i) := by
    intro i hi
    have hpoll : acceptingSockets + i < s.polls.elements.length := by omega
    rw [Server.client, Server.ownPoll, Server.poll, List.getD_eq_getElem _ _ hi,
      List.getD_eq_getElem _ _ hpoll, Server.pairs, List.getElem?_zip_eq_some, List.getElem?_drop]
    exact ⟨List.getElem?_eq_getElem hi, List.getElem?_eq_getElem hpoll⟩
  rw [List.mem_iff_getElem?]
  constructor
  · rintro ⟨i, hi⟩
    have hlt := hlength ▸ (List.getElem?_eq_some_iff.mp hi).1
    exact ⟨i, hlt, Option.some.inj (hi.symm.trans (hget i hlt))⟩
  · rintro ⟨i, hi, hpair⟩
    exact ⟨i, (hget i hi).trans (congrArg some hpair.symm)⟩

/-- Clients stay beside their polls. -/
theorem Compacted.pairs_subset (h : Compacted s t) (hs : s.Paired) : t.pairs ⊆ s.pairs := by
  have hsize := hs.size
  have hfst : s.pairs.map Prod.fst = s.clients.elements :=
    List.map_fst_zip (by rw [List.length_drop]; omega)
  have hclients : t.clients.elements = (s.pairs.filter fun pair => !pair.1.dead).map Prod.fst := by
    rw [h.clients, ← hfst, List.filter_map]
    rfl
  have htake : (s.polls.elements.take acceptingSockets).length = acceptingSockets := by
    rw [List.length_take]
    omega
  have hpolls : t.polls.elements.drop acceptingSockets
      = (s.pairs.filter fun pair => !pair.1.dead).map Prod.snd := by
    rw [h.polls, List.drop_left' htake]
    rfl
  intro pair hpair
  rw [Server.pairs, hclients, hpolls, List.zip_map', List.map_id''] at hpair
  · exact List.mem_of_mem_filter hpair
  · exact fun _ => rfl

/-! ## What a step keeps -/

namespace Described

variable {opened : List ℕ}

/-- Nothing that matters here changed. -/
theorem congr (h : Described opened s) (hlength : t.clients.elements.length = s.clients.elements.length)
    (hbirths : t.births = s.births) (heffects : closedIn t.effects = closedIn s.effects)
    (hclients : ∀ i < s.clients.elements.length, (t.client i).holds = (s.client i).holds ∧
      (t.client i).birth = (s.client i).birth)
    (hfds : ∀ i < s.clients.elements.length, (t.ownPoll i).fd.isSome = (s.ownPoll i).fd.isSome) :
    Described opened t := by
  refine ⟨h.nodup, fun birth hbirth => hbirths ▸ h.below birth hbirth, heffects ▸ h.once,
    heffects ▸ h.closed, fun birth => ?_, fun i hi => ?_⟩
  · rw [heffects, h.held birth, hlength]
    refine exists_congr fun i => and_congr_right fun hi => ?_
    rw [(hclients i hi).1, (hclients i hi).2]
  · rw [hlength] at hi
    rw [hfds i hi, h.fds i hi, (hclients i hi).1]

/-- Some descriptors were opened, and closed at once. -/
theorem unadmitted {born : ℕ} {closed : List ℕ} (h : Described opened s)
    (hsame : Unadmitted s t born closed) (hnodup : closed.Nodup)
    (hclosed : ∀ birth ∈ closed, s.births ≤ birth ∧ birth < t.births) :
    Described (opened ++ closed) t := by
  obtain ⟨more, hmore, hmoreClosed⟩ := hsame.told
  have heffects : closedIn t.effects = closedIn s.effects ++ closed := by
    rw [hmore, closedIn_append, hmoreClosed]
  -- what is closed was opened by the same step
  have hold : ∀ birth ∈ opened, birth ∉ closed := by
    intro birth hbirth hmem
    have hlt := h.below birth hbirth
    have hle := (hclosed birth hmem).1
    omega
  have hdisjoint : ∀ a ∈ opened, ∀ b ∈ closed, a ≠ b := by
    rintro a ha b hb rfl
    exact hold a ha hb
  have hclient : ∀ i, t.client i = s.client i := fun i => by
    rw [Server.client, Server.client, hsame.clients]
  refine ⟨List.nodup_append.mpr ⟨h.nodup, hnodup, hdisjoint⟩, fun birth hbirth => ?_, ?_,
    fun birth hbirth => ?_, fun birth => ?_, fun i hi => ?_⟩
  · rcases List.mem_append.mp hbirth with hmem | hmem
    · have hlt := h.below birth hmem
      rw [hsame.births]
      omega
    · exact (hclosed birth hmem).2
  · rw [heffects]
    exact List.nodup_append.mpr ⟨h.once, hnodup, fun a ha => hdisjoint a (h.closed a ha)⟩
  · rw [heffects] at hbirth
    exact List.mem_append.mpr ((List.mem_append.mp hbirth).imp_left (h.closed birth))
  · rw [heffects, hsame.clients]
    simp only [hclient]
    rw [← h.held birth, List.mem_append, List.mem_append]
    constructor
    · rintro ⟨hmem, hnot⟩
      obtain ⟨hnot, hnew⟩ := not_or.mp hnot
      exact ⟨hmem.resolve_right hnew, hnot⟩
    · rintro ⟨hmem, hnot⟩
      exact ⟨.inl hmem, not_or.mpr ⟨hnot, hold birth hmem⟩⟩
  · rw [hsame.clients] at hi
    rw [hclient, Server.ownPoll, Server.poll, hsame.polls]
    exact h.fds i hi

/-- A client is appended, with the descriptor it holds. -/
theorem admitted {client : Client} {poll : Poll} (h : Described opened s) (hs : s.Paired)
    (hadmitted : Admitted s t client poll) (hbirth : client.birth = s.births)
    (hfd : poll.fd.isSome = client.holds) :
    Described (opened ++ if client.holds then [s.births] else []) t := by
  have hsize := hs.size
  -- the descriptor that is new, if any, is that of the new client
  have hnew : ∀ b ∈ (if client.holds then [s.births] else []), b = s.births := by
    intro b hb
    split_ifs at hb
    · exact List.mem_singleton.mp hb
    · cases hb
  have hlength : t.clients.elements.length = s.clients.elements.length + 1 := by
    rw [hadmitted.clients, List.length_append, List.length_singleton]
  have hfresh : s.births ∉ closedIn s.effects := fun hmem =>
    Nat.lt_irrefl _ (h.below _ (h.closed _ hmem))
  refine ⟨List.nodup_append.mpr ⟨h.nodup, ?_, fun a ha b hb => ?_⟩, fun b hb => ?_, ?_, fun b hb => ?_,
    fun b => ?_, fun i hi => ?_⟩
  · split_ifs
    · exact List.pairwise_singleton _ _
    · exact List.nodup_nil
  · have hlt := h.below a ha
    rw [hnew b hb]
    omega
  · rw [hadmitted.births]
    rcases List.mem_append.mp hb with hmem | hmem
    · exact Nat.lt_succ_of_lt (h.below b hmem)
    · rw [hnew b hmem]
      exact Nat.lt_succ_self _
  · rw [hadmitted.effects]
    exact h.once
  · rw [hadmitted.effects] at hb
    exact List.mem_append_left _ (h.closed b hb)
  · -- what is open and not closed is held: by those who were there, or by the new client
    have hold := h.held b
    rw [exists_client_iff (P := fun c => c.holds = true ∧ c.birth = b)] at hold ⊢
    rw [hadmitted.effects, hadmitted.clients, List.mem_append]
    constructor
    · rintro ⟨hmem | hmem, hnot⟩
      · obtain ⟨c, hc, hP⟩ := hold.mp ⟨hmem, hnot⟩
        exact ⟨c, List.mem_append_left _ hc, hP⟩
      · refine ⟨client, List.mem_append_right _ (List.mem_singleton_self _), ?_, ?_⟩
        · by_contra hholds
          rw [if_neg hholds] at hmem
          cases hmem
        · rw [hnew b hmem, hbirth]
    · rintro ⟨c, hc, hholds, hb⟩
      rcases List.mem_append.mp hc with hc | hc
      · obtain ⟨hmem, hnot⟩ := hold.mpr ⟨c, hc, hholds, hb⟩
        exact ⟨.inl hmem, hnot⟩
      · obtain rfl := List.mem_singleton.mp hc
        rw [if_pos hholds, ← hb, hbirth]
        exact ⟨.inr (List.mem_singleton_self _), hfresh⟩
  · rw [hlength] at hi
    rcases Nat.lt_succ_iff_lt_or_eq.mp hi with hlt | rfl
    · rw [hadmitted.client_of_lt hlt, ← h.fds i hlt, Server.ownPoll, Server.poll, hadmitted.polls,
        List.getD_append _ _ _ _ (by omega)]
      rfl
    · rw [hadmitted.client_length, ← hfd, Server.ownPoll, Server.poll, hadmitted.polls,
        List.getD_append_right _ _ _ _ (by omega),
        show acceptingSockets + s.clients.elements.length - s.polls.elements.length = 0 by omega]
      rfl

/-- What becomes of the descriptor of a client that is visited. -/
theorem fate {i : ℕ} {closed : List ℕ} (h : Described opened s) (hs : s.Paired)
    (hi : i < s.clients.elements.length) (hself : (s.client i).SamePeer (t.client i))
    (hfate : Fate i s t closed) :
    ((t.client i).holds = (s.client i).holds ∧ (t.ownPoll i).fd = (s.ownPoll i).fd ∧ closed = []) ∨
      (t.client i).holds = false ∧ (t.ownPoll i).fd.isSome = false ∧
        closed = if (s.client i).holds then [(s.client i).birth] else [] := by
  have hsocket := hself.acceptingSocket
  have hfd := h.fds i hi
  have hbirth : (s.ownPoll i).birth = (s.client i).birth := hs.poll_birth hi
  rcases hfate with ⟨hdead, hsame, hnone⟩ | ⟨hdead, hlost, honce⟩
  · refine .inl ⟨?_, hsame, hnone⟩
    rw [Client.holds, hdead, hsocket]
    rfl
  · have hreleased : (t.client i).holds = false := by
      rw [Client.holds, hdead]
      rfl
    refine .inr ⟨hreleased, ?_, ?_⟩
    · rw [hlost]
      by_cases hconnection : acceptingSocketIsConnection (s.client i).acceptingSocket = true
      · rw [if_pos hconnection]
        rfl
      · rw [if_neg hconnection, hfd, Client.holds, Bool.eq_false_iff.mpr hconnection, Bool.and_false]
    · rw [honce, Poll.closing, hfd, hbirth]
      by_cases hholds : (s.client i).holds = true
      · rw [if_pos hholds, if_pos]
        rw [Client.holds, Bool.and_eq_true] at hholds
        exact hholds.2
      · rw [if_neg hholds, ite_self]

/-- A visit closes the descriptor of the client that it finalizes. -/
theorem visited {i : ℕ} (h : Described opened s) (hs : s.Paired) (hi : i < s.clients.elements.length)
    (hvisited : Visited i s t) : Described opened t := by
  obtain ⟨more, hmore, hfate⟩ := hvisited.fate
  have hothers : ∀ j, j ≠ i → (t.client j).holds = (s.client j).holds ∧
      (t.client j).birth = (s.client j).birth := by
    intro j hj
    obtain ⟨stream, hstream⟩ := hvisited.others j hj
    rw [hstream]
    exact ⟨rfl, rfl⟩
  have hpolls : ∀ j, j ≠ i → t.ownPoll j = s.ownPoll j := fun j hj =>
    hvisited.otherPolls _ fun heq => hj (Nat.add_left_cancel heq)
  have heffects : closedIn t.effects = closedIn s.effects ++ closedIn more := by
    rw [hmore, closedIn_append]
  have hbirths := fun j => show (t.client j).birth = (s.client j).birth by
    by_cases hj : j = i
    · rw [hj]
      exact hvisited.self.birth
    · exact (hothers j hj).2
  -- the client keeps what it holds, or it is finalized
  rcases h.fate hs hi hvisited.self hfate with ⟨hholds, hfd, hnone⟩ | ⟨hholds, hfd, honce⟩
  · rw [hnone, List.append_nil] at heffects
    refine h.congr hvisited.length hvisited.births heffects (fun j _ => ⟨?_, hbirths j⟩) fun j _ => ?_
    · by_cases hj : j = i
      · rw [hj, hholds]
      · exact (hothers j hj).1
    · by_cases hj : j = i
      · rw [hj, hfd]
      · rw [hpolls j hj]
  -- the client is finalized
  have hmem : ∀ b, b ∈ closedIn more ↔ (s.client i).holds = true ∧ (s.client i).birth = b := by
    intro b
    rw [honce]
    split_ifs with hheld
    · rw [List.mem_singleton, eq_comm]
      exact (and_iff_right hheld).symm
    · exact iff_of_false List.not_mem_nil fun hboth => hheld hboth.1
  have hopen : ∀ b ∈ closedIn more, b ∈ opened ∧ b ∉ closedIn s.effects := fun b hb =>
    (h.held b).mpr ⟨i, hi, (hmem b).mp hb⟩
  refine ⟨h.nodup, fun b hb => hvisited.births ▸ h.below b hb, ?_, fun b hb => ?_, fun b => ?_,
    fun j hj => ?_⟩
  · rw [heffects]
    refine List.nodup_append.mpr ⟨h.once, ?_, ?_⟩
    · rw [honce]
      split_ifs
      · exact List.pairwise_singleton _ _
      · exact List.nodup_nil
    · rintro a ha b hb rfl
      exact (hopen a hb).2 ha
  · rw [heffects] at hb
    exact (List.mem_append.mp hb).elim (h.closed b) fun hb => (hopen b hb).1
  · rw [heffects, List.mem_append, not_or, ← and_assoc, h.held b, hvisited.length]
    constructor
    · rintro ⟨⟨j, hj, hheld, hb⟩, hnot⟩
      have hne : j ≠ i := by
        rintro rfl
        exact hnot ((hmem b).mpr ⟨hheld, hb⟩)
      exact ⟨j, hj, (hothers j hne).1.trans hheld, (hbirths j).trans hb⟩
    · rintro ⟨j, hj, hheld, hb⟩
      have hne : j ≠ i := by
        rintro rfl
        rw [hholds] at hheld
        cases hheld
      refine ⟨⟨j, hj, (hothers j hne).1.symm.trans hheld, (hbirths j).symm.trans hb⟩, fun hclosed => ?_⟩
      have heq : (s.client j).birth = (s.client i).birth := by
        rw [← hbirths j, hb, ((hmem b).mp hclosed).2]
      exact hne (hs.birth_inj hj hi heq)
  · rw [hvisited.length] at hj
    by_cases hji : j = i
    · rw [hji, hfd, hholds]
    · rw [hpolls j hji, (hothers j hji).1]
      exact h.fds j hj

/-- The clients that are removed hold nothing. -/
theorem compacted (h : Described opened s) (hs : s.Paired) (hcompacted : Compacted s t) (ht : t.Paired)
    (hbirths : t.births = s.births) (heffects : t.effects = s.effects) : Described opened t := by
  refine ⟨h.nodup, fun b hb => hbirths ▸ h.below b hb, heffects ▸ h.once, heffects ▸ h.closed,
    fun b => ?_, fun i hi => ?_⟩
  · rw [heffects, h.held b, exists_client_iff (P := fun c => c.holds = true ∧ c.birth = b),
      exists_client_iff (P := fun c => c.holds = true ∧ c.birth = b), hcompacted.clients]
    refine exists_congr fun c => ?_
    rw [List.mem_filter, and_assoc]
    refine and_congr_right fun _ => (and_iff_right_of_imp fun hheld => ?_).symm
    have hholds := hheld.1
    rw [Client.holds, Bool.and_eq_true] at hholds
    exact hholds.1
  · have hpair := ht.mem_pairs_iff.mpr ⟨i, hi, rfl⟩
    have hsub : (t.client i, t.ownPoll i) ∈ s.pairs := hcompacted.pairs_subset hs hpair
    obtain ⟨j, hj, heq⟩ := hs.mem_pairs_iff.mp hsub
    obtain ⟨hclient, hpoll⟩ := Prod.mk.inj heq
    rw [hclient, hpoll]
    exact h.fds j hj

end Described

/-! ## Steps -/

/-- `poll()` changes no descriptor. -/
theorem fd_pollAll (revents : ℕ → PollEvents) (s : Server) (k : ℕ) :
    ((pollAll revents s).poll k).fd = (s.poll k).fd := by
  by_cases hk : k < s.polls.elements.length
  · rw [poll_pollAll revents hk]
  · simp [pollAll, Server.poll, hk]

/-- A listening socket for datagrams opens nothing. -/
theorem MessageServed.described {index : ℕ} {load : ServerLoad} {now : ℤ}
    {answers : AcceptMessageAnswers} {opened : List ℕ}
    (h : MessageServed index load now answers s t) (hs : s.Paired) (hd : Described opened s)
    (hmessage : acceptingSocketIsConnection index = false) : Described opened t := by
  rcases h with ⟨rfl⟩ | ⟨same⟩ | @⟨_, _, i, -, -, same, -⟩ |
    @⟨_, address, -, -, -, -, hadmitted, -⟩
  · exact hd
  · have hkept := hd.unadmitted same List.nodup_nil fun _ hmem => (List.not_mem_nil hmem).elim
    rwa [List.append_nil] at hkept
  · refine hd.congr (by rw [same.clients]) same.births (by rw [same.effects]) (fun j _ => ?_) fun j _ => ?_
    · rw [Server.client, same.clients]
      exact ⟨rfl, rfl⟩
    · set poll : Poll := { s.ownPoll i with revents.pollIn := true }
      have hpoll : t.ownPoll j = (s.setPoll (acceptingSockets + i) poll).ownPoll j := by
        rw [Server.ownPoll, Server.poll, same.polls]
        rfl
      rw [hpoll]
      by_cases hk : acceptingSockets + i < s.polls.elements.length
      · by_cases hij : acceptingSockets + i = acceptingSockets + j
        · rw [Server.ownPoll, ← hij, Server.poll_setPoll hk, ← Nat.add_left_cancel hij]
        · rw [Server.ownPoll, Server.poll_setPoll_of_ne s hij]
          rfl
      · rw [Server.setPoll_of_length_le (Nat.not_lt.mp hk)]
  · have hsocket : (newMessageClient index address now s.births).acceptingSocket = index := rfl
    have hholds : (newMessageClient index address now s.births).holds = false := by
      rw [Client.holds, hsocket, hmessage, Bool.and_false]
    have hkept := hd.admitted hs hadmitted rfl hholds.symm
    rw [hholds, if_neg Bool.false_ne_true, List.append_nil] at hkept
    exact hkept

/-- A listening socket for connections opens what it accepts. -/
theorem ConnectionServed.described {index : ℕ} {load : ServerLoad} {now : ℤ}
    {answers : AcceptAnswers} {opened : List ℕ} (h : ConnectionServed index load now answers s t)
    (hs : s.Paired) (hd : Described opened s) (hconnection : acceptingSocketIsConnection index = true)
    (hrefused : answers.accepted.isSome = true → ¬ RefusedEncrypted index load answers) :
    Described (opened ++ if answers.accepted.isSome then [s.births] else []) t := by
  rcases h with ⟨hnone, same⟩ | ⟨haccepted, -, same⟩ | ⟨haccepted, hfcntl, hrefuses, hencrypted, -⟩ |
    @⟨_, _, client, haccepted, -, -, hmade, hadmitted, -⟩
  · rw [hnone]
    exact hd.unadmitted same List.nodup_nil fun _ hmem => (List.not_mem_nil hmem).elim
  · rw [if_pos haccepted]
    refine hd.unadmitted same (List.pairwise_singleton _ _) fun birth hmem => ?_
    have hbirths := same.births
    rw [List.mem_singleton.mp hmem]
    omega
  · exact absurd ⟨hfcntl, hrefuses, hencrypted⟩ (hrefused haccepted)
  · have hidentity := initializeClient_identity hmade
    rw [haccepted]
    have hholds : client.holds = true := by
      rw [Client.holds, hidentity.dead, hidentity.acceptingSocket]
      exact hconnection
    have hkept := hd.admitted hs hadmitted hidentity.birth hholds.symm
    rwa [if_pos hholds] at hkept

/-- Every step keeps the descriptors in order, unless it refuses a connection where the refusal would
have to be encrypted. -/
theorem DescriptorStep.described {state state' : (Phase × Server) × List ℕ} {input : ServerInput}
    (h : DescriptorStep state input state') (hs : Tabled state.1)
    (hd : Described state.2 state.1.2) (hrefused : NoneRefusedEncrypted state input) :
    Described state'.2 state'.1.2 := by
  obtain ⟨⟨phase, s⟩, opened⟩ := state
  obtain ⟨⟨phase', t⟩, opened'⟩ := state'
  obtain ⟨hstep, hopened⟩ := h
  obtain ⟨hpaired, hplaces⟩ := hs
  dsimp only at hstep hopened hd hpaired hplaces ⊢
  subst hopened
  cases hstep with
  | poll =>
    show Described (opened ++ []) _
    rw [List.append_nil]
    exact hd.congr rfl rfl rfl (fun _ _ => ⟨rfl, rfl⟩) fun i _ =>
      congrArg Option.isSome (fd_pollAll _ s _)
  | @accept _ _ now load index rest answers returns =>
    rw [opens]
    rcases (serverAcceptSocket_cases hpaired.size index load now answers).of_eq_ok returns with
      ⟨rfl, hunasked⟩ | ⟨hasked, served⟩ | ⟨-, hmessage, -, served⟩
    · rw [hunasked, Bool.false_and, if_neg Bool.false_ne_true, List.append_nil]
      exact hd
    · rw [hasked, Bool.true_and]
      exact served.described hpaired hd (Server.acceptsAt_iff.mp hasked).2.2 (hrefused hasked)
    · have hunasked : s.acceptsAt index = false := by
        rw [Server.acceptsAt, hmessage, Bool.and_false]
      rw [hunasked, Bool.false_and, if_neg Bool.false_ne_true, List.append_nil]
      exact served.described hpaired hd hmessage
  | shuffle _ now load choices =>
    show Described (opened ++ []) _
    rw [List.append_nil]
    refine hd.congr (length_clientsShuffle choices s) rfl rfl (fun i hi => ?_) fun _ _ => rfl
    obtain ⟨shuffleIndex, -, hclient⟩ := client_clientsShuffle choices hi
    rw [hclient]
    exact ⟨rfl, rfl⟩
  | visit returns =>
    show Described (opened ++ []) _
    rw [List.append_nil]
    have hlt := hplaces _ List.mem_cons_self
    exact hd.visited hpaired hlt ((serverProcessClient_visited hlt _ _ _ _).of_eq_ok returns)
  | remove _ now remaining =>
    show Described (opened ++ []) _
    rw [List.append_nil]
    have hcompacted := clientsRemoveFinalized_compacted hpaired
    exact hd.compacted hpaired hcompacted (hcompacted.paired hpaired rfl) rfl rfl

/-- Nothing is closed that was not accepted. -/
theorem ServerStep.closedBelow {state state' : Phase × Server} {input : ServerInput}
    (h : ServerStep state input state') (hs : Tabled state) (hclosed : state.2.ClosedBelow) :
    state'.2.ClosedBelow := by
  -- births only grow, so what is closed has to be looked at where it is told
  have hkept : ∀ {s t : Server} {more : List Effect}, s.ClosedBelow → t.effects = s.effects ++ more →
      s.births ≤ t.births → (∀ birth ∈ closedIn more, birth < t.births) → t.ClosedBelow := by
    intro s t more hs hmore hbirths hnew birth hbirth
    rw [hmore, closedIn_append] at hbirth
    rcases List.mem_append.mp hbirth with hold | hmem
    · exact Nat.lt_of_lt_of_le (hs birth hold) hbirths
    · exact hnew birth hmem
  have hunadmitted : ∀ {s t : Server} {born : ℕ} {closed : List ℕ}, s.ClosedBelow →
      Unadmitted s t born closed → (∀ birth ∈ closed, birth < s.births + born) → t.ClosedBelow := by
    intro s t born closed hs same hnew
    obtain ⟨more, hmore, hmoreClosed⟩ := same.told
    refine hkept hs hmore (same.births.ge.trans' (Nat.le_add_right _ _)) fun birth hbirth => ?_
    rw [same.births]
    exact hnew birth (hmoreClosed ▸ hbirth)
  have hnone : ∀ {s t : Server}, s.ClosedBelow → t.effects = s.effects → s.births ≤ t.births →
      t.ClosedBelow := fun hs heffects hbirths =>
    hkept hs (heffects.trans (List.append_nil _).symm) hbirths fun _ hmem =>
      (List.not_mem_nil hmem).elim
  obtain ⟨hpaired, hplaces⟩ := hs
  cases h with
  | poll => exact hclosed
  | @accept s t now load index rest answers returns =>
    rcases (serverAcceptSocket_cases hpaired.size index load now answers).of_eq_ok returns with
      ⟨rfl, -⟩ | ⟨-, served⟩ | ⟨-, -, -, served⟩
    · exact hclosed
    · rcases served with ⟨-, same⟩ | ⟨-, -, same⟩ | ⟨-, -, -, -, same⟩ | ⟨-, -, -, -, hadmitted, -⟩
      · exact hunadmitted hclosed same fun _ hmem => (List.not_mem_nil hmem).elim
      · exact hunadmitted hclosed same fun birth hmem => by
          rw [List.mem_singleton.mp hmem]
          exact Nat.lt_succ_self _
      · exact hunadmitted hclosed same fun _ hmem => (List.not_mem_nil hmem).elim
      · exact hnone hclosed hadmitted.effects (hadmitted.births.ge.trans' (Nat.le_add_right _ _))
    · rcases served with ⟨rfl⟩ | ⟨same⟩ | ⟨-, -, same, -⟩ | ⟨-, -, -, -, hadmitted, -⟩
      · exact hclosed
      · exact hunadmitted hclosed same fun _ hmem => (List.not_mem_nil hmem).elim
      · exact hnone hclosed same.effects same.births.ge
      · exact hnone hclosed hadmitted.effects (hadmitted.births.ge.trans' (Nat.le_add_right _ _))
  | shuffle => exact hclosed
  | @visit s t now remaining remaining' place rest answers fuel returns =>
    have hlt : s.visited place < s.clients.elements.length := hplaces _ List.mem_cons_self
    have hvisited := (serverProcessClient_visited hlt _ _ _ _).of_eq_ok returns
    obtain ⟨more, hmore, hfate⟩ := hvisited.fate
    refine hkept hclosed hmore hvisited.births.ge fun birth hbirth => ?_
    have hbound := hpaired.bound _ (Server.mem_clients_iff.mpr ⟨_, hlt, rfl⟩)
    -- a visit closes nothing but the descriptor of its own client
    have hown : (s.ownPoll (s.visited place)).birth = (s.client (s.visited place)).birth :=
      hpaired.poll_birth hlt
    rw [hvisited.births]
    rcases hfate with ⟨-, -, hnothing⟩ | ⟨-, -, honce⟩
    · rw [hnothing] at hbirth
      cases hbirth
    · rw [honce, Poll.closing, hown] at hbirth
      split_ifs at hbirth
      · rw [List.mem_singleton.mp hbirth]
        exact hbound
      · cases hbirth
      · cases hbirth
  | remove => exact hclosed

/-- As many descriptors are open as connections live. -/
theorem Described.length_openDescriptors {opened : List ℕ} (h : Described opened s) (hs : s.Paired) :
    (openDescriptors opened s).length = s.liveConnections.length := by
  have hlive : (s.liveConnections.map Client.birth).Nodup :=
    hs.nodup.sublist (List.filter_sublist.map _)
  have hperm : (openDescriptors opened s).Perm (s.liveConnections.map Client.birth) := by
    refine (List.perm_ext_iff_of_nodup (h.nodup.filter _) hlive).mpr fun birth => ?_
    have hheld := h.held birth
    rw [exists_client_iff (P := fun c => c.holds = true ∧ c.birth = birth)] at hheld
    unfold Server.liveConnections
    rw [List.mem_filter, decide_eq_true_iff, hheld, List.mem_map]
    refine exists_congr fun c => ?_
    rw [List.mem_filter, and_assoc]
  rw [hperm.length_eq, List.length_map]

/-- In every reachable state, when `server_accept_connection` returns, the descriptor is held by one poll
or was closed once exactly when the connection is not refused where the refusal would have to be
encrypted. In every run without such a refusal no descriptor is closed twice, and as many are open as
connections live. -/
theorem serverRun_descriptors {polls : Buffer Poll}
    (hpolls : polls.elements.length = acceptingSockets) :
    (∀ inputs phase s, Runs ServerStep (startState polls) inputs (phase, s) →
      ∀ index load now answers, answers.accepted.isSome = true →
        (serverAcceptConnection index load now answers s).Keeps fun t =>
          (t.Disposed s.births ↔ ¬ RefusedEncrypted index load answers)) ∧
    ∀ inputs state,
      Runs (StepsWhere NoneRefusedEncrypted DescriptorStep) (startState polls, []) inputs state →
        (closedIn state.1.2.effects).Nodup ∧
          (openDescriptors state.2 state.1.2).length = state.1.2.liveConnections.length := by
  constructor
  · intro inputs phase s hrun index load now answers haccepted
    have hstart : Tabled (startState polls) ∧ (startState polls).2.ClosedBelow :=
      ⟨startState_tabled hpolls, fun _ hmem => (List.not_mem_nil hmem).elim⟩
    have hkeeps : ∀ u input u', Tabled u ∧ u.2.ClosedBelow → ServerStep u input u' →
        Tabled u' ∧ u'.2.ClosedBelow := fun u input u' hs hstep =>
      ⟨hstep.tabled hs.1, hstep.closedBelow hs.1 hs.2⟩
    obtain ⟨htabled, hclosed⟩ := hrun.invariant hstart hkeeps
    exact (serverAcceptConnection_cases htabled.paired.size index load now answers).mono fun _ h =>
      h.disposed_iff htabled.paired hclosed haccepted
  · intro inputs state hrun
    have hstart : Tabled (startState polls) ∧ Described [] (startState polls).2 := by
      refine ⟨startState_tabled hpolls, List.nodup_nil, fun _ hmem => (List.not_mem_nil hmem).elim,
        List.nodup_nil, fun _ hmem => (List.not_mem_nil hmem).elim, fun birth => ?_,
        fun i hi => (Nat.not_lt_zero i hi).elim⟩
      exact iff_of_false (fun h => List.not_mem_nil h.1) fun ⟨i, hi, _⟩ => Nat.not_lt_zero i hi
    have hkeeps : ∀ u input u', Tabled u.1 ∧ Described u.2 u.1.2 →
        StepsWhere NoneRefusedEncrypted DescriptorStep u input u' →
        Tabled u'.1 ∧ Described u'.2 u'.1.2 := fun u input u' hs hstep =>
      ⟨hstep.2.server.tabled hs.1, hstep.2.described hs.1 hs.2 hstep.1⟩
    obtain ⟨htabled, hdescribed⟩ := hrun.invariant hstart hkeeps
    exact ⟨hdescribed.once, hdescribed.length_openDescriptors htabled.paired⟩

/-- One connection is accepted, and its descriptor is open. -/
theorem serverRun_descriptors_accepted : ∃ inputs rest t,
    Runs (StepsWhere NoneRefusedEncrypted DescriptorStep) (startState listening, []) inputs
      ((.accepting 0 ⟨false, false, false⟩ rest, t), [0]) ∧ t.clients.elements.length = 1 ∧
    (openDescriptors [0] t).length = t.liveConnections.length := by
  have hpaired : (Server.initial listening).Paired := Server.initial_paired rfl
  have hempty : Crowd 0 (Server.initial listening) :=
    ⟨rfl, fun i hi => absurd hi (Nat.not_lt_zero i), rfl⟩
  obtain ⟨hpoll, hcrowd, hready⟩ := hempty.poll hpaired (by decide) intMax 1
  have hpaired₁ := pollAll_paired (readySockets 1) hpaired
  set s₁ := pollAll (readySockets 1) (Server.initial listening) with hs₁
  have hrange : List.range acceptingSockets = 0 :: (List.range 17).map (· + 1) := rfl
  rw [hrange] at hpoll
  obtain ⟨t, haccept, hcrowd₂, -, -⟩ := hcrowd.accept (Calm.pollAll _ 1) hpaired₁.size (by decide)
    (by decide) (hready 0 (by decide))
  have hrun : Runs (StepsWhere NoneRefusedEncrypted DescriptorStep) (startState listening, [])
      [.poll (readySockets 1) 0 false false, .accept acceptedAnswers]
      ((.accepting 0 ⟨false, false, false⟩ ((List.range 17).map (· + 1)), t), [0]) := by
    refine .cons ⟨trivial, (⟨hpoll, rfl⟩ : DescriptorStep _ _ (_, []))⟩ (.cons ⟨?_, .accept haccept, ?_⟩
      (.nil _))
    · rintro - - ⟨-, hrefuses, -⟩
      cases hrefuses
    · rw [opens, (by decide : s₁.acceptsAt 0 = true)]
      rfl
  exact ⟨_, _, t, hrun, hcrowd₂.length, ((serverRun_descriptors rfl).2 _ _ hrun).2⟩

/-- The socket of HTTPS is ready. -/
def readyHttps (k : ℕ) : PollEvents := if k = 2 then ⟨true, false, false, false⟩ else .none

/-- A connection over HTTPS comes when there is no memory left, and its descriptor is lost. -/
theorem serverRun_descriptors_lost : ¬ ∀ (polls : Buffer Poll),
    polls.elements.length = acceptingSockets →
    ∀ inputs now load index rest s, Runs ServerStep (startState polls) inputs
        (.accepting now load (index :: rest), s) →
      ∀ answers, answers.accepted.isSome = true → s.acceptsAt index = true →
        (serverAcceptConnection index load now answers s).Keeps fun t => t.Disposed s.births := by
  intro hclaim
  set s := pollAll readyHttps (Server.initial listening) with hs
  have hrange : List.range acceptingSockets = 0 :: 1 :: 2 :: (List.range 15).map (· + 3) := rfl
  have hpoll : ServerStep (startState listening) (.poll readyHttps 0 true false)
      (.accepting 0 ⟨false, true, false⟩ (0 :: 1 :: 2 :: (List.range 15).map (· + 3)), s) :=
    hrange ▸ .poll (Server.initial listening) intMax readyHttps 0 true false
  have hskip₀ : serverAcceptSocket ⟨false, true, false⟩ 0 acceptedAnswers 0 s = .ok () s := rfl
  have hskip₁ : serverAcceptSocket ⟨false, true, false⟩ 0 acceptedAnswers 1 s = .ok () s := rfl
  have hlost := hclaim listening rfl _ _ _ _ _ s
    (.cons hpoll (.cons (.accept hskip₀) (.cons (.accept hskip₁) (.nil _)))) oneAccepted rfl
    (by decide)
  have hcall : serverAcceptConnection 2 ⟨false, true, false⟩ 0 oneAccepted s
      = .ok () { s with births := 1 } := rfl
  rw [hcall] at hlost
  have hdisposed : Server.Disposed { s with births := 1 } s.births := hlost
  have hnot : ¬ Server.Disposed { s with births := 1 } s.births := by decide
  exact hnot hdisposed

end Twinkleshine
