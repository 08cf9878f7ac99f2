import Twinkleshine.Library.Transition
import Twinkleshine.Server.Admission

/-!
# The tables of clients and polls

Clients and polls are two arrays with a shared index. They grow together when a client is accepted, and
are compacted together when the finalized clients are removed; the owner of the short response stream
is a pointer into one of them. Reference: `source/client.c`, `source/server/accept.c`.
-/

namespace Twinkleshine

open Library

/-! ## Paired tables -/

/-- Every client has its poll: behind those of the listening sockets there is one for each client, made
for the same birth. -/
structure Server.Paired (s : Server) : Prop where
  size : s.polls.elements.length = s.clients.elements.length + acceptingSockets
  births : (s.polls.elements.drop acceptingSockets).map Poll.birth
    = s.clients.elements.map Client.birth
  nodup : (s.clients.elements.map Client.birth).Nodup
  bound : ∀ client ∈ s.clients.elements, client.birth < s.births

/-- The owner of the short response stream is the live client number `i`, of this birth. -/
def Server.Designates (s : Server) (i birth : ℕ) : Prop :=
  s.shortResponseStreamOwner = some (s.pointer i) ∧
    ∃ client, s.clients.elements[i]? = some client ∧ client.dead = false ∧ client.birth = birth

theorem Server.initial_paired {polls : Buffer Poll} (h : polls.elements.length = acceptingSockets) :
    (Server.initial polls).Paired := by
  refine ⟨?_, ?_, List.nodup_nil, ?_⟩
  · simp [Server.initial, h]
  · simp [Server.initial, ← h]
  · intro client hclient
    cases hclient

/-- The poll of a client was made with it. -/
theorem Server.Paired.poll_birth {s : Server} (h : s.Paired) {i : ℕ}
    (hi : i < s.clients.elements.length) :
    (s.poll (acceptingSockets + i)).birth = (s.client i).birth := by
  have hsize := h.size
  have hget := congrArg (·[i]?) h.births
  simp only [List.getElem?_map, List.getElem?_drop] at hget
  rw [List.getElem?_eq_getElem (by omega), List.getElem?_eq_getElem hi] at hget
  rw [Server.poll, Server.client, List.getD_eq_getElem?_getD, List.getD_eq_getElem?_getD,
    List.getElem?_eq_getElem (by omega), List.getElem?_eq_getElem hi]
  exact Option.some.inj hget

/-- No two clients were born together. -/
theorem Server.Paired.birth_inj {s : Server} (hs : s.Paired) {i j : ℕ} (hi : i < s.clients.elements.length)
    (hj : j < s.clients.elements.length) (h : (s.client i).birth = (s.client j).birth) : i = j := by
  rw [Server.client, Server.client, List.getD_eq_getElem _ _ hi, List.getD_eq_getElem _ _ hj] at h
  have hlt : i < (s.clients.elements.map Client.birth).length := by rwa [List.length_map]
  refine (List.getElem?_inj hlt hs.nodup).mp ?_
  rw [List.getElem?_map, List.getElem?_map, List.getElem?_eq_getElem hi, List.getElem?_eq_getElem hj,
    Option.map_some, Option.map_some, h]

/-- Only the identity of clients and polls matters. -/
theorem Server.Paired.congr {s t : Server} (h : s.Paired)
    (hclients : t.clients.elements.map Client.birth = s.clients.elements.map Client.birth)
    (hpolls : t.polls.elements.map Poll.birth = s.polls.elements.map Poll.birth)
    (hbirths : s.births ≤ t.births) : t.Paired := by
  have hlength := congrArg List.length hclients
  have hlength' := congrArg List.length hpolls
  simp only [List.length_map] at hlength hlength'
  refine ⟨by rw [hlength, hlength', h.size], ?_, hclients ▸ h.nodup, fun client hclient => ?_⟩
  · rw [List.map_drop, hpolls, hclients, ← List.map_drop, h.births]
  · obtain ⟨old, hold, heq⟩ := List.mem_map.mp (hclients ▸ List.mem_map_of_mem hclient)
    have := h.bound old hold
    omega

/-! ## Accepting -/

/-- Neither table changed, and the owner neither. -/
structure SameTables (s t : Server) : Prop where
  clients : t.clients.elements = s.clients.elements
  block : t.clients.p = s.clients.p
  polls : t.polls.elements = s.polls.elements
  owner : t.shortResponseStreamOwner = s.shortResponseStreamOwner ∨
    t.shortResponseStreamOwner = s.shortResponseStreamOwner.map (·.moveTo s.clients.p)
  births : s.births ≤ t.births

/-- A message of a known client was received, which changes what happened on one poll. -/
structure KnownMessage (s t : Server) : Prop where
  clients : t.clients = s.clients
  owner : t.shortResponseStreamOwner = s.shortResponseStreamOwner
  polls : ∃ k poll, t.polls.elements = s.polls.elements.set k poll ∧ poll.birth = (s.poll k).birth
  births : t.births = s.births

/-- One client was appended, together with its poll, and the owner moved with the table. -/
structure Appended (s t : Server) : Prop where
  append : ∃ client poll, client.birth = s.births ∧ poll.birth = s.births ∧
    t.clients.elements = s.clients.elements ++ [client] ∧
    t.polls.elements = s.polls.elements ++ [poll]
  owner : t.shortResponseStreamOwner = s.shortResponseStreamOwner.map (·.moveTo t.clients.p)
  births : t.births = s.births + 1

/-- Appending a client and its poll keeps the pairs. -/
theorem Appended.paired {s t : Server} (hs : s.Paired) (h : Appended s t) : t.Paired := by
  obtain ⟨client, poll, hclient, hpoll, hclients, hpolls⟩ := h.append
  have hsize := hs.size
  refine ⟨?_, ?_, ?_, ?_⟩
  · rw [hclients, hpolls, List.length_append, List.length_append, hsize]
    simp only [List.length_singleton]
    omega
  · rw [hclients, hpolls, List.drop_append_of_le_length (by omega), List.map_append, List.map_append,
      hs.births, List.map_singleton, List.map_singleton, hclient, hpoll]
  · rw [hclients, List.map_append, List.map_singleton, hclient]
    refine List.nodup_append.mpr ⟨hs.nodup, by simp, ?_⟩
    intro a ha b hb
    obtain ⟨old, hold, rfl⟩ := List.mem_map.mp ha
    have := hs.bound old hold
    rw [List.mem_singleton.mp hb]
    omega
  · intro c hc
    rw [h.births]
    rw [hclients] at hc
    rcases List.mem_append.mp hc with hc | hc
    · have := hs.bound c hc
      omega
    · rw [List.mem_singleton.mp hc]
      omega

/-- Appending moves the owner with the table. -/
theorem Appended.designates {s t : Server} (h : Appended s t) {i birth : ℕ}
    (howner : s.Designates i birth) : t.Designates i birth := by
  obtain ⟨hpointer, client, hget, hlive, hbirth⟩ := howner
  obtain ⟨new, poll, -, -, hclients, -⟩ := h.append
  refine ⟨?_, client, ?_, hlive, hbirth⟩
  · rw [h.owner, hpointer]
    rfl
  · rw [hclients, List.getElem?_append_left (List.getElem?_eq_some_iff.mp hget).1, hget]

theorem SameTables.designates {s t : Server} (h : SameTables s t) {i birth : ℕ}
    (howner : s.Designates i birth) : t.Designates i birth := by
  obtain ⟨hpointer, hclient⟩ := howner
  refine ⟨?_, h.clients ▸ hclient⟩
  rcases h.owner with howner | howner
  · rw [howner, hpointer, Server.pointer, Server.pointer, h.block]
  · rw [howner, hpointer, Server.pointer, Server.pointer, h.block]
    rfl

theorem SameTables.rfl {s : Server} : SameTables s s :=
  ⟨.refl _, .refl _, .refl _, .inl (.refl _), le_refl _⟩

theorem SameTables.paired {s t : Server} (h : SameTables s t) (hs : s.Paired) : t.Paired :=
  hs.congr (by rw [h.clients]) (by rw [h.polls]) h.births

theorem Unadmitted.sameTables {s t : Server} {born : ℕ} {closed : List ℕ}
    (h : Unadmitted s t born closed) : SameTables s t :=
  ⟨h.clients, h.block, h.polls, h.owner, by rw [h.births]; omega⟩

theorem Admitted.appended {s t : Server} {client : Client} {poll : Poll}
    (h : Admitted s t client poll) (hclient : client.birth = s.births)
    (hpoll : poll.birth = s.births) : Appended s t :=
  ⟨⟨client, poll, hclient, hpoll, h.clients, h.polls⟩, h.owner, h.births⟩

/-- Whether a connection is accepted or not, the tables grow together or not at all. -/
theorem ConnectionServed.tables {s t : Server} {index : ℕ} {load : ServerLoad} {now : ℤ}
    {answers : AcceptAnswers} (h : ConnectionServed index load now answers s t) :
    SameTables s t ∨ Appended s t := by
  rcases h with ⟨-, same⟩ | ⟨-, -, same⟩ | ⟨-, -, -, -, same⟩ | ⟨-, -, -, made, admitted, -⟩
  · exact .inl same.sameTables
  · exact .inl same.sameTables
  · exact .inl same.sameTables
  · exact .inr (admitted.appended (initializeClient_identity made).birth rfl)

/-- A message is from a known client, or refused, or makes a client and a poll. -/
theorem MessageServed.tables {s t : Server} {index : ℕ} {load : ServerLoad} {now : ℤ}
    {answers : AcceptMessageAnswers} (h : MessageServed index load now answers s t) :
    SameTables s t ∨ KnownMessage s t ∨ Appended s t := by
  rcases h with ⟨rfl⟩ | ⟨same⟩ | ⟨-, -, same, -⟩ | ⟨-, -, -, -, admitted, -⟩
  · exact .inl .rfl
  · exact .inl same.sameTables
  · exact .inr (.inl ⟨same.clients, same.owner, ⟨_, _, same.polls, rfl⟩, same.births⟩)
  · exact .inr (.inr (admitted.appended rfl rfl))

/-! ## Compaction -/

/-- How many of the first `j` clients are alive: the place of client `j` after the compaction. -/
def survivingPlace (clients : List Client) (j : ℕ) : ℕ := (clients.take j).countP fun c => !c.dead

/-- The loop keeps the live clients, each with its poll, in their order. -/
theorem removeFinalized_tables (block : ℕ) (clients : List Client) (polls : List Poll)
    (owner : Option ClientPointer) (i k : ℕ) :
    (removeFinalized block i k clients polls owner).1
        = ((clients.zip polls).filter fun pair => !pair.1.dead).map Prod.fst ∧
      (removeFinalized block i k clients polls owner).2.1
        = ((clients.zip polls).filter fun pair => !pair.1.dead).map Prod.snd := by
  induction clients generalizing polls owner i k with
  | nil => cases polls <;> exact ⟨rfl, rfl⟩
  | cons client clients ih =>
    rcases polls with _ | ⟨poll, polls⟩
    · exact ⟨rfl, rfl⟩
    rw [removeFinalized, List.zip_cons_cons]
    by_cases hdead : client.dead = true
    · rw [if_pos hdead, List.filter_cons_of_neg (by simp [hdead])]
      exact ih ..
    · rw [if_neg hdead, List.filter_cons_of_pos (by simp [hdead])]
      obtain ⟨hclients, hpolls⟩ := ih polls (if some ⟨block, i⟩ = owner then
        some ⟨block, i - (i - k)⟩ else owner) (i + 1) (k + 1)
      exact ⟨congrArg (client :: ·) hclients, congrArg (poll :: ·) hpolls⟩

/-- The loop does not touch an owner it has passed, or that points to no live client. -/
theorem removeFinalized_owner_of_not (block : ℕ) (clients : List Client) (polls : List Poll)
    {owner : Option ClientPointer} {i k : ℕ}
    (hnot : ∀ j client, clients[j]? = some client → client.dead = false →
      owner ≠ some ⟨block, i + j⟩) :
    (removeFinalized block i k clients polls owner).2.2 = owner := by
  induction clients generalizing polls i k with
  | nil => cases polls <;> rfl
  | cons client clients ih =>
    rcases polls with _ | ⟨poll, polls⟩
    · rfl
    have htail : ∀ j c, clients[j]? = some c → c.dead = false → owner ≠ some ⟨block, i + 1 + j⟩ := by
      intro j c hc hlive
      rw [Nat.add_assoc, Nat.add_comm 1]
      exact hnot (j + 1) c hc hlive
    rw [removeFinalized]
    by_cases hdead : client.dead = true
    · rw [if_pos hdead]
      exact ih polls htail
    · have hne : ¬ some ⟨block, i⟩ = owner :=
        Ne.symm (hnot 0 client rfl (Bool.not_eq_true _ ▸ hdead))
      simp only [if_neg hdead, if_neg hne]
      exact ih polls htail

/-- An owner that points to a live client is moved to where the client goes. -/
theorem removeFinalized_owner (block : ℕ) {clients : List Client} (polls : List Poll)
    (hlength : clients.length ≤ polls.length) {i k j : ℕ} (hk : k ≤ i) {client : Client}
    (hget : clients[j]? = some client) (hlive : client.dead = false) :
    (removeFinalized block i k clients polls (some ⟨block, i + j⟩)).2.2
      = some ⟨block, k + survivingPlace clients j⟩ := by
  induction clients generalizing polls i k j with
  | nil => cases hget
  | cons c clients ih =>
    rcases polls with _ | ⟨poll, polls⟩
    · cases hlength
    have htail : clients.length ≤ polls.length := Nat.le_of_succ_le_succ hlength
    rw [removeFinalized]
    rcases j with _ | j
    · obtain rfl : c = client := Option.some.inj hget
      -- the owner itself: it is moved, and what follows does not touch it
      rw [if_neg (by simp [hlive]), Nat.add_zero, if_pos rfl]
      have hplace : i - (i - k) = k := by omega
      simp only [hplace, survivingPlace, List.take_zero, List.countP_nil, Nat.add_zero]
      refine removeFinalized_owner_of_not block clients polls fun j _ _ _ heq => ?_
      have := congrArg (Option.map ClientPointer.index) heq
      simp only [Option.map_some, Option.some.injEq] at this
      omega
    · have hgets : clients[j]? = some client := hget
      have hplace : survivingPlace (c :: clients) (j + 1)
          = survivingPlace clients j + if c.dead then 0 else 1 := by
        rw [survivingPlace, List.take_succ_cons, List.countP_cons, survivingPlace]
        cases c.dead <;> rfl
      have hindex : i + (j + 1) = i + 1 + j := by omega
      have hne : ¬ some (⟨block, i⟩ : ClientPointer) = some ⟨block, i + (j + 1)⟩ := by
        simp
      by_cases hdead : c.dead = true
      · rw [if_pos hdead, hplace, if_pos hdead, hindex, ih _ htail (by omega) hgets, Nat.add_zero]
      · rw [if_neg hdead, if_neg hne, hplace, if_neg hdead]
        simp only [hindex]
        rw [ih _ htail (by omega) hgets]
        simp only [Option.some.injEq, ClientPointer.mk.injEq, true_and]
        omega

/-- A live client is found at its new place. -/
theorem getElem?_survivingPlace {clients : List Client} {i : ℕ} {client : Client}
    (hget : clients[i]? = some client) (hlive : client.dead = false) :
    (clients.filter fun c => !c.dead)[survivingPlace clients i]? = some client := by
  obtain ⟨hi, hclient⟩ := List.getElem?_eq_some_iff.mp hget
  have hsplit : clients = clients.take i ++ client :: clients.drop (i + 1) := by
    rw [← hclient, List.getElem_cons_drop, List.take_append_drop]
  have hfilter : clients.filter (fun c => !c.dead) = (clients.take i).filter (fun c => !c.dead) ++
      client :: (clients.drop (i + 1)).filter fun c => !c.dead := by
    conv_lhs => rw [hsplit]
    rw [List.filter_append, List.filter_cons_of_pos (by simp [hlive])]
  rw [hfilter, survivingPlace, List.countP_eq_length_filter, List.getElem?_append_right (le_refl _),
    Nat.sub_self, List.getElem?_cons_zero]

/-- The tables after a compaction: the live clients, each with its poll, in their order. -/
structure Compacted (s t : Server) : Prop where
  clients : t.clients.elements = s.clients.elements.filter fun c => !c.dead
  polls : t.polls.elements = s.polls.elements.take acceptingSockets ++
    ((s.clients.elements.zip (s.polls.elements.drop acceptingSockets)).filter fun pair =>
      !pair.1.dead).map Prod.snd

theorem clientsRemoveFinalized_compacted {s : Server} (hs : s.Paired) :
    Compacted s (clientsRemoveFinalized s) := by
  have hsize := hs.size
  obtain ⟨hclients, hpolls⟩ := removeFinalized_tables s.clients.p s.clients.elements
    (s.polls.elements.drop acceptingSockets) s.shortResponseStreamOwner 0 0
  refine ⟨?_, congrArg (s.polls.elements.take acceptingSockets ++ ·) hpolls⟩
  refine hclients.trans ?_
  have hfst : (s.clients.elements.zip (s.polls.elements.drop acceptingSockets)).map Prod.fst
      = s.clients.elements :=
    List.map_fst_zip (by rw [List.length_drop]; omega)
  conv_rhs => rw [← hfst]
  rw [List.filter_map]
  rfl

/-- In paired tables a client and its poll have one birth. -/
theorem birth_eq_of_mem_zip {clients : List Client} {polls : List Poll}
    (h : polls.map Poll.birth = clients.map Client.birth) {pair : Client × Poll}
    (hpair : pair ∈ clients.zip polls) : pair.2.birth = pair.1.birth := by
  induction clients generalizing polls with
  | nil => cases hpair
  | cons client clients ih =>
    rcases polls with _ | ⟨poll, polls⟩
    · cases hpair
    obtain ⟨hhead, htail⟩ := List.cons.inj h
    rcases List.mem_cons.mp hpair with rfl | hpair
    · exact hhead
    · exact ih htail hpair

/-- Compaction keeps the pairs. -/
theorem Compacted.paired {s t : Server} (h : Compacted s t) (hs : s.Paired)
    (hbirths : t.births = s.births) : t.Paired := by
  have hsize := hs.size
  set pairs := s.clients.elements.zip (s.polls.elements.drop acceptingSockets) with hpairs
  have hfst : pairs.map Prod.fst = s.clients.elements :=
    List.map_fst_zip (by rw [List.length_drop]; omega)
  have hclients : t.clients.elements = (pairs.filter fun pair => !pair.1.dead).map Prod.fst := by
    rw [h.clients, ← hfst, List.filter_map]
    rfl
  have htake : (s.polls.elements.take acceptingSockets).length = acceptingSockets := by
    rw [List.length_take]
    omega
  have hsub : t.clients.elements.Sublist s.clients.elements := h.clients ▸ List.filter_sublist
  refine ⟨?_, ?_, hs.nodup.sublist (hsub.map _), fun client hclient => ?_⟩
  · rw [h.polls, hclients, List.length_append, htake, List.length_map, List.length_map, ← hpairs,
      Nat.add_comm]
  · rw [h.polls, List.drop_left' htake, hclients, List.map_map, List.map_map]
    refine List.map_congr_left fun pair hpair => ?_
    exact birth_eq_of_mem_zip hs.births (List.mem_filter.mp hpair).1
  · rw [hbirths]
    exact hs.bound client (hsub.subset hclient)

/-- The owner designates the same client after the compaction, wherever that client went. -/
theorem clientsRemoveFinalized_designates {s : Server} (hs : s.Paired) {i birth : ℕ}
    (h : s.Designates i birth) :
    (clientsRemoveFinalized s).Designates (survivingPlace s.clients.elements i) birth := by
  have hsize := hs.size
  obtain ⟨howner, client, hget, hlive, hbirth⟩ := h
  refine ⟨?_, client, ?_, hlive, hbirth⟩
  · have hlength : s.clients.elements.length ≤ (s.polls.elements.drop acceptingSockets).length := by
      rw [List.length_drop]
      omega
    have hmoved := removeFinalized_owner s.clients.p _ hlength (le_refl 0) hget hlive
    rw [Nat.zero_add, Nat.zero_add] at hmoved
    show (removeFinalized s.clients.p 0 0 s.clients.elements
      (s.polls.elements.drop acceptingSockets) s.shortResponseStreamOwner).2.2 = _
    rw [howner]
    exact hmoved
  · rw [(clientsRemoveFinalized_compacted hs).clients]
    exact getElem?_survivingPlace hget hlive

/-! ## Finalizing -/

/-- Writing a client that keeps its birth keeps all births. -/
theorem map_birth_setClient {s : Server} {i : ℕ} {client : Client}
    (h : client.birth = (s.client i).birth) :
    (s.setClient i client).clients.elements.map Client.birth
      = s.clients.elements.map Client.birth := by
  rw [Server.clients_setClient, List.map_set, h, Server.client]
  refine List.ext_getElem? fun j => ?_
  rw [List.getElem?_set]
  by_cases hj : i = j
  · subst hj
    by_cases hi : i < s.clients.elements.length
    · simp [hi]
    · simp [hi]
  · rw [if_neg hj]

/-- Writing a poll that keeps its birth keeps all births. -/
theorem map_birth_setPoll {s : Server} {k : ℕ} {poll : Poll} (h : poll.birth = (s.poll k).birth) :
    (s.setPoll k poll).polls.elements.map Poll.birth = s.polls.elements.map Poll.birth := by
  show (s.polls.elements.set k poll).map Poll.birth = _
  rw [List.map_set, h, Server.poll]
  refine List.ext_getElem? fun j => ?_
  rw [List.getElem?_set]
  by_cases hj : k = j
  · subst hj
    by_cases hi : k < s.polls.elements.length
    · simp [hi]
    · simp [hi]
  · rw [if_neg hj]

theorem clientFinalize_births (i : ℕ) (s : Server) :
    (clientFinalize i s).clients.elements.map Client.birth = s.clients.elements.map Client.birth ∧
      (clientFinalize i s).polls = s.polls ∧ (clientFinalize i s).births = s.births := by
  rw [clientFinalize_eq]
  exact ⟨map_birth_setClient rfl, rfl, rfl⟩

theorem pollFinalize_births (k : ℕ) (s : Server) :
    (pollFinalize k s).polls.elements.map Poll.birth = s.polls.elements.map Poll.birth ∧
      (pollFinalize k s).clients = s.clients ∧ (pollFinalize k s).births = s.births := by
  unfold pollFinalize
  rcases (s.poll k).fd with _ | fd
  · exact ⟨rfl, rfl, rfl⟩
  · exact ⟨map_birth_setPoll rfl, rfl, rfl⟩

/-- Finalizing a client keeps the pairs. -/
theorem finalizeClient_paired {s : Server} (hs : s.Paired) (i : ℕ) : (finalizeClient i s).Paired := by
  unfold finalizeClient
  split_ifs
  · obtain ⟨hpolls, hclients, hbirths⟩ := pollFinalize_births (pollIndex s i) s
    obtain ⟨hclients', hpolls', hbirths'⟩ :=
      clientFinalize_births i (pollFinalize (pollIndex s i) s)
    exact hs.congr (by rw [hclients', hclients]) (by rw [hpolls', hpolls])
      (by rw [hbirths', hbirths])
  · obtain ⟨hclients, hpolls, hbirths⟩ := clientFinalize_births i s
    exact hs.congr hclients (by rw [hpolls]) hbirths.ge

/-! ## Every order of events -/

/-- What changes the tables, or the pointer into them. -/
inductive TableEvent where
  | acceptConnection (index : ℕ) (load : ServerLoad) (now : ℤ) (answers : AcceptAnswers)
  | acceptMessage (index : ℕ) (load : ServerLoad) (now : ℤ) (answers : AcceptMessageAnswers)
  | finalize (i : ℕ)
  /-- The short response stream is given to a client, or to nobody. -/
  | own (owner : Option ℕ)
  | removeFinalized

/-- One event; an accept may fail and leave something behind. -/
inductive TableStep : Server → TableEvent → Server → Prop where
  | acceptConnection {s t : Server} {index : ℕ} {load : ServerLoad} {now : ℤ}
      {answers : AcceptAnswers} (ends : (serverAcceptConnection index load now answers s).Ends t) :
      TableStep s (.acceptConnection index load now answers) t
  | acceptMessage {s t : Server} {index : ℕ} {load : ServerLoad} {now : ℤ}
      {answers : AcceptMessageAnswers}
      (ends : (serverAcceptMessage index load now answers s).Ends t) :
      TableStep s (.acceptMessage index load now answers) t
  | finalize {s : Server} (i : ℕ) : TableStep s (.finalize i) (finalizeClient i s)
  | own {s : Server} (owner : Option ℕ) :
      TableStep s (.own owner) { s with shortResponseStreamOwner := owner.map s.pointer }
  | removeFinalized {s : Server} : TableStep s .removeFinalized (clientsRemoveFinalized s)

/-- What an event does to the tables. An accept appends a client with its poll exactly when nothing fails on
the way, and otherwise leaves both tables as they were, except for noting that a known client has a message; a
compaction keeps the live clients in their order. In all cases an owner that is alive is the same client
afterwards. -/
def TableFacts (s t : Server) : TableEvent → Prop
  | .acceptConnection index load now answers =>
    (answers.Admits index load now s → ∃ fd address client, answers.accepted = some (fd, address) ∧
      initializeClient index answers.cryptography (newClient index address now s.births)
        = .ok () client ∧
      Admitted s t client ⟨some fd, .none, .none, s.births⟩) ∧
    (¬ answers.Admits index load now s → SameTables s t) ∧
    ∀ i birth, s.Designates i birth → t.Designates i birth
  | .acceptMessage index load now answers =>
    (∀ e, answers.received = .error e → SameTables s t) ∧
    (∀ bytes address, answers.received = .ok (bytes, address) →
      (∀ i, findGuppy address s.clients.elements = some i → Known i s t) ∧
      (findGuppy address s.clients.elements = none →
        (answers.Creates load bytes s → Admitted s t (newMessageClient index address now s.births)
          ⟨none, .none, ⟨true, false, false, false⟩, s.births⟩) ∧
        (¬ answers.Creates load bytes s → SameTables s t))) ∧
    ∀ i birth, s.Designates i birth → t.Designates i birth
  | .removeFinalized =>
    Compacted s t ∧ ∀ i birth, s.Designates i birth →
      t.Designates (survivingPlace s.clients.elements i) birth
  | .finalize _ | .own _ => True

section

variable {s t : Server} {index : ℕ} {load : ServerLoad} {now : ℤ}

/-- A connection becomes a client if nothing fails, and leaves no trace in the tables otherwise. -/
theorem ConnectionServed.facts {answers : AcceptAnswers} (h : ConnectionServed index load now answers s t) :
    (answers.Admits index load now s → ∃ fd address client, answers.accepted = some (fd, address) ∧
      initializeClient index answers.cryptography (newClient index address now s.births)
        = .ok () client ∧
      Admitted s t client ⟨some fd, .none, .none, s.births⟩) ∧
    (¬ answers.Admits index load now s → SameTables s t) := by
  rcases h with ⟨haccepted, same⟩ | ⟨-, -, same, hrejected⟩ | ⟨-, -, hrefuses, -, same⟩ |
    ⟨haccepted, hfcntl, hadmits, made, admitted, -, hpolls, hclients⟩
  · refine ⟨fun h => ?_, fun _ => same.sameTables⟩
    obtain ⟨fd, address, client, hsome, -⟩ := h.made
    rw [haccepted] at hsome
    cases hsome
  · exact ⟨fun h => absurd h hrejected, fun _ => same.sameTables⟩
  · refine ⟨fun h => ?_, fun _ => same.sameTables⟩
    rw [h.admits] at hrefuses
    cases hrefuses
  · exact ⟨fun _ => ⟨_, _, _, haccepted, made, admitted⟩, fun h =>
      absurd ⟨hfcntl, hadmits, ⟨_, _, _, haccepted, made⟩, hpolls, hclients⟩ h⟩

/-- A datagram is for a client that is known, or makes one if nothing fails, or leaves no trace. -/
theorem MessageServed.facts {answers : AcceptMessageAnswers} (h : MessageServed index load now answers s t) :
    (∀ e, answers.received = .error e → SameTables s t) ∧
    ∀ bytes address, answers.received = .ok (bytes, address) →
      (∀ i, findGuppy address s.clients.elements = some i → Known i s t) ∧
      (findGuppy address s.clients.elements = none →
        (answers.Creates load bytes s → Admitted s t (newMessageClient index address now s.births)
          ⟨none, .none, ⟨true, false, false, false⟩, s.births⟩) ∧
        (¬ answers.Creates load bytes s → SameTables s t)) := by
  rcases h with ⟨rfl, e, hfailed⟩ | ⟨same, bytes, address, hreceived, hunknown, hrejected⟩ |
    ⟨hreceived, hfound, same, -⟩ | ⟨hreceived, hunknown, hrequest, hadmits, admitted, -, hpolls, hclients⟩
  · refine ⟨fun _ _ => .rfl, fun bytes address hreceived => ?_⟩
    rw [hfailed] at hreceived
    cases hreceived
  · refine ⟨fun _ _ => same.sameTables, fun bytes' address' hreceived' => ?_⟩
    obtain ⟨rfl, rfl⟩ := Prod.mk.inj (Except.ok.inj (hreceived.symm.trans hreceived'))
    refine ⟨fun i hfound => ?_, fun _ => ⟨fun h => absurd h hrejected, fun _ => same.sameTables⟩⟩
    rw [hunknown] at hfound
    cases hfound
  · refine ⟨fun e hfailed => ?_, fun bytes' address' hreceived' => ?_⟩
    · rw [hreceived] at hfailed
      cases hfailed
    · obtain ⟨rfl, rfl⟩ := Prod.mk.inj (Except.ok.inj (hreceived.symm.trans hreceived'))
      refine ⟨fun j hj => ?_, fun hnone => ?_⟩
      · rwa [← Option.some.inj (hfound.symm.trans hj)]
      · rw [hfound] at hnone
        cases hnone
  · refine ⟨fun e hfailed => ?_, fun bytes' address' hreceived' => ?_⟩
    · rw [hreceived] at hfailed
      cases hfailed
    · obtain ⟨rfl, rfl⟩ := Prod.mk.inj (Except.ok.inj (hreceived.symm.trans hreceived'))
      refine ⟨fun i hfound => ?_, fun _ => ⟨fun _ => admitted, fun h =>
        absurd ⟨hrequest, hadmits, hpolls, hclients⟩ h⟩⟩
      rw [hunknown] at hfound
      cases hfound

end

theorem KnownMessage.paired {s t : Server} (h : KnownMessage s t) (hs : s.Paired) : t.Paired := by
  obtain ⟨k, poll, hpolls, hbirth⟩ := h.polls
  refine hs.congr (by rw [h.clients]) ?_ h.births.ge
  rw [hpolls]
  exact map_birth_setPoll hbirth

theorem KnownMessage.designates {s t : Server} (h : KnownMessage s t) {i birth : ℕ}
    (howner : s.Designates i birth) : t.Designates i birth := by
  rw [Server.Designates, Server.pointer] at howner ⊢
  rw [h.owner, h.clients]
  exact howner

/-- One event keeps the tables paired, and does to them what it should. -/
theorem TableStep.paired {s t : Server} {event : TableEvent} (hs : s.Paired)
    (h : TableStep s event t) : t.Paired ∧ TableFacts s t event := by
  cases h with
  | acceptConnection ends =>
    have hserved := (serverAcceptConnection_cases hs.size _ _ _ _).of_ends ends
    obtain ⟨hadmits, hrejects⟩ := hserved.facts
    rcases hserved.tables with h | h
    · exact ⟨h.paired hs, hadmits, hrejects, fun _ _ => h.designates⟩
    · exact ⟨h.paired hs, hadmits, hrejects, fun _ _ => h.designates⟩
  | acceptMessage ends =>
    have hserved := (serverAcceptMessage_cases hs.size _ _ _ _).of_ends ends
    obtain ⟨hfails, hreceives⟩ := hserved.facts
    rcases hserved.tables with h | h | h
    · exact ⟨h.paired hs, hfails, hreceives, fun _ _ => h.designates⟩
    · exact ⟨h.paired hs, hfails, hreceives, fun _ _ => h.designates⟩
    · exact ⟨h.paired hs, hfails, hreceives, fun _ _ => h.designates⟩
  | finalize i => exact ⟨finalizeClient_paired hs i, trivial⟩
  | own owner => exact ⟨⟨hs.size, hs.births, hs.nodup, hs.bound⟩, trivial⟩
  | removeFinalized =>
    have hcompacted := clientsRemoveFinalized_compacted hs
    exact ⟨hcompacted.paired hs rfl, hcompacted, fun i birth =>
      clientsRemoveFinalized_designates hs⟩

/-- In every run the tables stay paired, and every event does to them what it should. -/
theorem tableRun_paired {polls : Buffer Poll} (hpolls : polls.elements.length = acceptingSockets)
    {events : List TableEvent} {s : Server}
    (hrun : Runs TableStep (Server.initial polls) events s) :
    s.Paired ∧ ∀ event t, TableStep s event t → TableFacts s t event := by
  have hpaired := hrun.invariant (Server.initial_paired hpolls) fun _ _ _ hs h => (h.paired hs).1
  exact ⟨hpaired, fun _ _ h => (h.paired hpaired).2⟩

/-- The tables with the polls of the listening sockets alone. -/
def listeningServer : Server :=
  .initial ⟨0, List.replicate acceptingSockets .zero, acceptingSockets⟩

/-- A connection is accepted, both tables move, and nothing fails. -/
def oneAccepted : AcceptAnswers where
  accepted := some (20, ⟨false, 1, 2⟩)
  fcntl := true
  refusal := none
  cryptography := ⟨none, ⟨[], none⟩, none⟩
  polls := some 1
  clients := some 2

/-- The first of two clients is finalized while the second has the short response stream. When the first is
removed the second keeps the stream under its new index. One more connection becomes a client, and one that
fails changes nothing. -/
theorem tableRun_paired_removed : ∃ s,
    Runs TableStep listeningServer [.acceptConnection 0 ⟨false, false, false⟩ 7 oneAccepted,
      .acceptConnection 0 ⟨false, false, false⟩ 8 oneAccepted, .own (some 1), .finalize 0] s ∧
    s.Paired ∧ s.clients.elements.map (fun client => (client.birth, client.dead)) = [(0, true), (1, false)] ∧
    (clientsRemoveFinalized s).Designates 0 1 ∧
    (∀ t, TableStep s (.acceptConnection 0 ⟨false, false, false⟩ 9 oneAccepted) t →
      ∃ client, Admitted s t client ⟨some 20, .none, .none, s.births⟩) ∧
    ∀ t, TableStep s (.acceptConnection 0 ⟨false, false, false⟩ 9 { oneAccepted with fcntl := false }) t →
      SameTables s t := by
  have hall : ((serverAcceptConnection 0 ⟨false, false, false⟩ 7 oneAccepted listeningServer).returnsIn fun s =>
      (serverAcceptConnection 0 ⟨false, false, false⟩ 8 oneAccepted s).returnsIn fun t =>
        let u := finalizeClient 0 { t with shortResponseStreamOwner := some (t.pointer 1) }
        u.clients.elements.map (fun client => (client.birth, client.dead)) = [(0, true), (1, false)] ∧
          u.shortResponseStreamOwner = some (u.pointer 1)) = true := by decide +kernel
  obtain ⟨_, s, hs, hall⟩ := Outcome.exists_of_returnsIn hall
  obtain ⟨_, t, ht, hall⟩ := Outcome.exists_of_returnsIn hall
  obtain ⟨hclients, howner⟩ := of_decide_eq_true hall
  set u := finalizeClient 0 { t with shortResponseStreamOwner := some (t.pointer 1) } with hu
  have hrun : Runs TableStep listeningServer [.acceptConnection 0 ⟨false, false, false⟩ 7 oneAccepted,
      .acceptConnection 0 ⟨false, false, false⟩ 8 oneAccepted, .own (some 1), .finalize 0] u :=
    .cons (.acceptConnection (.inl ⟨(), hs⟩)) (.cons (.acceptConnection (.inl ⟨(), ht⟩))
      (.cons (.own (some 1)) (.cons (.finalize 0) (.nil _))))
  obtain ⟨hpaired, hfacts⟩ := tableRun_paired (by decide) hrun
  obtain ⟨first, second, hpair, hfirst, hsecond⟩ : ∃ first second, u.clients.elements = [first, second] ∧
      (first.birth, first.dead) = (0, true) ∧ (second.birth, second.dead) = (1, false) := by
    obtain ⟨first, rest, hcons, hfirst, hrest⟩ := List.map_eq_cons_iff.mp hclients
    obtain ⟨second, last, rfl, hsecond, hlast⟩ := List.map_eq_cons_iff.mp hrest
    rw [List.map_eq_nil_iff.mp hlast] at hcons
    exact ⟨first, second, hcons, hfirst, hsecond⟩
  obtain ⟨hbirth, hlive⟩ := Prod.mk.inj hsecond
  have hdesignates : u.Designates 1 1 := ⟨howner, second, by rw [hpair]; rfl, hlive, hbirth⟩
  have hplace : survivingPlace u.clients.elements 1 = 0 := by
    rw [survivingPlace, hpair]
    simp [(Prod.mk.inj hfirst).2]
  have hremoved := (hfacts .removeFinalized _ .removeFinalized).2 1 1 hdesignates
  rw [hplace] at hremoved
  have hadmits : oneAccepted.Admits 0 ⟨false, false, false⟩ 9 u :=
    ⟨rfl, rfl, ⟨_, _, _, rfl, rfl⟩, .inr rfl, .inr rfl⟩
  refine ⟨u, hrun, hpaired, hclients, hremoved, fun v hv => ?_, fun v hv =>
    (hfacts _ v hv).2.1 fun h => absurd h.fcntl Bool.false_ne_true⟩
  obtain ⟨fd, address, client, haccepted, -, hadmitted⟩ := (hfacts _ v hv).1 hadmits
  cases haccepted
  exact ⟨client, hadmitted⟩

end Twinkleshine
