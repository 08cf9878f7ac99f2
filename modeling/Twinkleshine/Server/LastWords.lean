import Twinkleshine.Server.Delivery

/-!
# Last words

What is told about a connection, in the runs of `Delivering`, ends with at most one fixed text and one
`close()`; all before is serving, and all that was sent before is the front of what was generated. Nothing
is told about a connection after its end.
-/

namespace Twinkleshine

open Library

variable {birth other i : ℕ} {s t : Server}

/-! ## The end of a history -/

/-- What is told about a client at its end: a part of a fixed text is sent, or not, and the connection is
closed, or not. -/
def LastWords (birth : ℕ) (ending : List Effect) : Prop :=
  ∃ index fixed taken, ending.Sublist
    [.sentFixed birth ((processorFixedFailsafe index fixed).take taken), .closed birth]

/-- All that was told about a client is serving and then its end; who has an end does not live. -/
def Server.ToldOf (s : Server) (birth : ℕ) : Prop :=
  ∃ serving ending, history birth s.effects = serving ++ ending ∧
    (∀ effect ∈ serving, effect.serves = true) ∧ LastWords birth ending ∧
    (ending ≠ [] → ∀ i < s.clients.elements.length, (s.client i).dead = false → (s.client i).birth ≠ birth)

/-- A live client of `t` with this number is one of `s`. -/
def LivedBefore (birth : ℕ) (s t : Server) : Prop :=
  ∀ k < t.clients.elements.length, (t.client k).dead = false → (t.client k).birth = birth →
    ∃ j < s.clients.elements.length, (s.client j).dead = false ∧ (s.client j).birth = birth

theorem Server.ToldOf.congr (h : s.ToldOf birth) (hquiet : history birth t.effects = history birth s.effects)
    (hlived : LivedBefore birth s t) : t.ToldOf birth := by
  obtain ⟨serving, ending, hhistory, hserving, hending, hdead⟩ := h
  refine ⟨serving, ending, hquiet.trans hhistory, hserving, hending, fun hne k hk hlive hbirth => ?_⟩
  obtain ⟨j, hj, hlive', hbirth'⟩ := hlived k hk hlive hbirth
  exact hdead hne j hj hlive' hbirth'

/-- Of a live client only serving was told. -/
theorem Server.ToldOf.serving (h : s.ToldOf (s.client i).birth) (hi : i < s.clients.elements.length)
    (hlive : (s.client i).dead = false) :
    ∀ effect ∈ history (s.client i).birth s.effects, effect.serves = true := by
  obtain ⟨serving, ending, hhistory, hserving, -, hdead⟩ := h
  by_cases hending : ending = []
  · rw [hhistory, hending, List.append_nil]
    exact hserving
  · exact absurd rfl (hdead hending i hi hlive)

theorem LastWords.nil (birth : ℕ) : LastWords birth [] := ⟨0, 0, 0, List.nil_sublist _⟩

theorem LastWords.of_closed {ending : List Effect} (h : ending.Sublist [.closed birth]) :
    LastWords birth ending :=
  ⟨0, 0, 0, h.trans (List.sublist_cons_self _ _)⟩

/-- Nothing of a response is in a client's last words. -/
theorem LastWords.sent {ending : List Effect} (h : LastWords birth ending) :
    sentIn ending = [] ∧ generatedIn ending = [] := by
  obtain ⟨index, fixed, taken, hsublist⟩ := h
  have hkind : ∀ effect ∈ ending, effect = .closed birth ∨ ∃ bytes, effect = .sentFixed birth bytes := by
    intro effect heffect
    rcases List.mem_pair.mp (hsublist.subset heffect) with rfl | rfl
    · exact .inr ⟨_, rfl⟩
    · exact .inl rfl
  refine ⟨List.flatMap_eq_nil_iff.mpr fun effect heffect => ?_,
    List.filterMap_eq_nil_iff.mpr fun effect heffect => ?_⟩
  · rcases hkind effect heffect with rfl | ⟨bytes, rfl⟩ <;> rfl
  · rcases hkind effect heffect with rfl | ⟨bytes, rfl⟩ <;> rfl

/-- What is told of nobody, or of the end of a connection, is the history of its closing. -/
theorem history_of_closed {more : List Effect}
    (h : ∀ effect ∈ more, effect.birth = none ∨ effect = .closed birth) :
    history birth more = (closedIn more).map .closed := by
  induction more with
  | nil => rfl
  | cons effect more ih =>
    have htail := ih fun effect heffect => h effect (List.mem_cons_of_mem _ heffect)
    rcases h effect List.mem_cons_self with hnone | rfl
    · rw [history, List.filter_cons_of_neg (by simp [hnone])]
      cases effect with
      | refused | errorPrinted => exact htail
      | _ => cases hnone
    · rw [history, List.filter_cons_of_pos (by simp [Effect.birth])]
      exact congrArg (Effect.closed birth :: ·) htail

/-! ## Who comes -/

/-- Nobody who comes lived before. -/
theorem Unadmitted.livedBefore {born : ℕ} {closed : List ℕ} (h : Unadmitted s t born closed) (birth : ℕ) :
    LivedBefore birth s t := by
  intro k hk hlive hbirth
  have hclient : t.client k = s.client k := by rw [Server.client, Server.client, h.clients]
  rw [hclient] at hlive hbirth
  exact ⟨k, h.clients ▸ hk, hlive, hbirth⟩

theorem Admitted.livedBefore {client : Client} {poll : Poll} (h : Admitted s t client poll)
    (hne : client.birth ≠ birth) : LivedBefore birth s t := by
  intro k hk hlive hbirth
  rw [h.clients, List.length_append, List.length_singleton] at hk
  by_cases hold : k < s.clients.elements.length
  · rw [h.client_of_lt hold] at hlive hbirth
    exact ⟨k, hold, hlive, hbirth⟩
  · obtain rfl : k = s.clients.elements.length := by omega
    rw [h.client_length] at hbirth
    exact absurd hbirth hne

/-- A client that was not born has no history, and a connection that is refused only that of its closing. -/
theorem Unadmitted.toldOf_new {born : ℕ} {closed : List ℕ} (h : Unadmitted s t born closed)
    (hpaired : s.Paired) (hs : history s.births s.effects = []) (htold : ToldAside s.births s t)
    (hclosed : closed.Sublist [s.births]) : t.ToldOf s.births := by
  obtain ⟨more, hmore, hall⟩ := htold
  obtain ⟨more', hmore', hclosed'⟩ := h.told
  obtain rfl : more = more' := List.append_cancel_left (hmore.symm.trans hmore')
  refine ⟨[], history s.births more, ?_, fun _ h => absurd h List.not_mem_nil, .of_closed ?_,
    fun _ k hk _ hbirth => ?_⟩
  · rw [hmore, history_append, hs]
  · rw [history_of_closed hall, hclosed']
    exact hclosed.map _
  · have hclient : t.client k = s.client k := by rw [Server.client, Server.client, h.clients]
    rw [hclient] at hbirth
    exact absurd (hpaired.birth_lt (h.clients ▸ hk)) (by omega)

theorem ConnectionServed.toldOf {index : ℕ} {load : ServerLoad} {now : ℤ} {answers : AcceptAnswers}
    (h : ConnectionServed index load now answers s t) (hpaired : s.Paired) (hs : ∀ birth, s.ToldOf birth)
    (hunborn : history s.births s.effects = []) (htold : ToldAside s.births s t) (birth : ℕ) :
    t.ToldOf birth := by
  by_cases hne : birth = s.births
  · rw [hne]
    rcases h with ⟨-, same⟩ | ⟨-, -, same⟩ | ⟨-, -, -, -, same⟩ | ⟨-, -, -, -, admitted, -⟩
    · exact same.toldOf_new hpaired hunborn htold (List.nil_sublist _)
    · exact same.toldOf_new hpaired hunborn htold (List.Sublist.refl _)
    · exact same.toldOf_new hpaired hunborn htold (List.nil_sublist _)
    · refine ⟨[], [], ?_, fun _ h => absurd h List.not_mem_nil, .nil _, fun h => absurd rfl h⟩
      rw [admitted.effects, hunborn]
      rfl
  · refine (hs birth).congr (htold.history_eq hne) ?_
    rcases h with ⟨-, same⟩ | ⟨-, -, same⟩ | ⟨-, -, -, -, same⟩ | ⟨-, -, -, made, admitted, -⟩
    · exact same.livedBefore birth
    · exact same.livedBefore birth
    · exact same.livedBefore birth
    · refine admitted.livedBefore ?_
      rw [(initializeClient_identity made).birth]
      exact fun h => hne h.symm

/-! ## The end of a client -/

/-- What is told while client `i` is visited, and whether the client lives on. -/
structure VisitTold (i : ℕ) (s t : Server) : Prop where
  told : ∃ serving ending, t.effects = s.effects ++ (serving ++ ending) ∧
    (∀ effect ∈ serving, effect.birth = some (s.client i).birth ∧ effect.serves = true) ∧
    (∀ effect ∈ ending, effect.Aside (s.client i).birth) ∧ LastWords (s.client i).birth
      (history (s.client i).birth ending) ∧ (ending ≠ [] → (t.client i).dead = true)

/-- `close()` is called once, or not at all. -/
theorem finalizeClient_effects (i : ℕ) (s : Server) : ∃ closed,
    (finalizeClient i s).effects = s.effects ++ closed ∧ closed.Sublist [.closed (s.ownPoll i).birth] := by
  have hsame : ∃ closed, (clientFinalize i s).effects = s.effects ++ closed ∧
      closed.Sublist [.closed (s.ownPoll i).birth] := by
    rw [clientFinalize_eq]
    exact ⟨[], (List.append_nil _).symm, List.nil_sublist _⟩
  unfold finalizeClient
  by_cases hconnection : acceptingSocketIsConnection (s.client i).acceptingSocket = true
  · rw [if_pos hconnection, pollIndex, if_pos hconnection, pollFinalize]
    rcases (s.poll (acceptingSockets + i)).fd with _ | fd
    · exact hsame
    · dsimp only
      rw [clientFinalize_eq]
      exact ⟨[.closed (s.ownPoll i).birth], rfl, List.Sublist.refl _⟩
  · rw [if_neg hconnection]
    exact hsame

/-- A connection that is finalized again is not closed again. -/
theorem finalizeClient_again (hi : i < s.clients.elements.length)
    (hconnection : acceptingSocketIsConnection (s.client i).acceptingSocket = true) :
    (finalizeClient i (finalizeClient i s)).effects = (finalizeClient i s).effects := by
  have hconnection' : acceptingSocketIsConnection ((finalizeClient i s).client i).acceptingSocket = true := by
    rw [finalizeClient_client hi]
    exact hconnection
  have hclosed : ((finalizeClient i s).poll (acceptingSockets + i)).fd = none := by
    rw [finalizeClient, if_pos hconnection, pollIndex, if_pos hconnection, clientFinalize_eq]
    exact (pollFinalize_closes (acceptingSockets + i) s).1
  generalize finalizeClient i s = u at hconnection' hclosed ⊢
  rw [finalizeClient, if_pos hconnection', pollIndex, if_pos hconnection', pollFinalize, hclosed]
  dsimp only
  rw [clientFinalize_eq]
  rfl

/-- What the label `failure` tells of a connection. -/
theorem failureActions_lastWords (hi : i < s.clients.elements.length)
    (hconnection : acceptingSocketIsConnection (s.client i).acceptingSocket = true)
    (hbirth : (s.ownPoll i).birth = (s.client i).birth) {e : ExError}
    (hlives : e.has partialEefDie = false) {taken : ℕ} (h : failureActions i taken e s = .ok () t) :
    ∃ ending, t.effects = s.effects ++ ending ∧ (∀ effect ∈ ending, effect.Aside (s.client i).birth) ∧
      LastWords (s.client i).birth (history (s.client i).birth ending) := by
  -- a part of a fixed response, when one is to be sent
  obtain ⟨index, fixed, n, words, hfixed, hwords⟩ : ∃ index fixed n words,
      sendFixed i taken e s = { s with effects := s.effects ++ words } ∧
        words.Sublist [.sentFixed (s.client i).birth ((processorFixedFailsafe index fixed).take n)] := by
    unfold sendFixed pollIndex
    dsimp only
    rw [if_pos hconnection, if_pos hconnection]
    split_ifs
    · exact ⟨_, _, _, _, rfl, by rw [← hbirth]; exact List.Sublist.refl _⟩
    · exact ⟨0, 0, 0, [], by rw [List.append_nil], List.nil_sublist _⟩
  -- then the connection is closed: once, although two flags may ask for it
  obtain ⟨closed, hclosed, honce⟩ := finalizeClient_effects i { s with effects := s.effects ++ words }
  have honce' : closed.Sublist [.closed (s.client i).birth] := hbirth ▸ honce
  unfold failureActions at h
  dsimp only at h
  rw [if_neg (by rw [hlives]; exact Bool.false_ne_true), hfixed] at h
  have heffects : ∀ p q : Prop, ∀ [Decidable p] [Decidable q], p ∨ q →
      (if q then finalizeClient i (if p then finalizeClient i { s with effects := s.effects ++ words }
        else { s with effects := s.effects ++ words }) else if p then finalizeClient i { s with
          effects := s.effects ++ words } else { s with effects := s.effects ++ words }).effects
        = s.effects ++ (words ++ closed) := by
    intro p q _ _ hends
    rw [← List.append_assoc, ← hclosed]
    by_cases hp : p
    · rw [if_pos hp]
      split_ifs
      · exact finalizeClient_again hi hconnection
      · rfl
    · rw [if_neg hp, if_pos (hends.resolve_left hp)]
  have heffects' := heffects _ _ (ExError.ends_of_not_die hlives)
  have hown : ∀ effect ∈ words ++ closed, effect.birth = some (s.client i).birth ∧
      effect.Aside (s.client i).birth := by
    intro effect heffect
    rcases List.mem_append.mp heffect with heffect | heffect
    · rw [List.mem_singleton.mp (hwords.subset heffect)]
      exact ⟨rfl, .inr (.inr ⟨_, rfl⟩)⟩
    · rw [List.mem_singleton.mp (honce'.subset heffect)]
      exact ⟨rfl, .inr (.inl rfl)⟩
  have hhistory : history (s.client i).birth (words ++ closed) = words ++ closed :=
    history_of_own fun effect heffect => (hown effect heffect).1
  have hlast : LastWords (s.client i).birth (history (s.client i).birth (words ++ closed)) := by
    rw [hhistory]
    exact ⟨index, fixed, n, hwords.append honce'⟩
  obtain ⟨-, rfl⟩ := Outcome.ok.inj h
  -- what is printed of the error is told of nobody
  by_cases hlog : e.has partialEefLog = true
  · refine ⟨words ++ closed ++ [.errorPrinted e.error], ?_, fun effect heffect => ?_, ?_⟩
    · rw [if_pos hlog, Server.emit, heffects', List.append_assoc]
    · rcases List.mem_append.mp heffect with heffect | heffect
      · exact (hown effect heffect).2
      · rw [List.mem_singleton.mp heffect]
        exact .inl rfl
    · have hnobody : ∀ effect ∈ [Effect.errorPrinted e.error], effect.birth ≠ some (s.client i).birth := by
        intro effect heffect
        rw [List.mem_singleton.mp heffect]
        exact (Option.some_ne_none _).symm
      rw [history_append, history_of_others hnobody, List.append_nil]
      exact hlast
  · rw [if_neg hlog]
    exact ⟨words ++ closed, heffects', fun effect heffect => (hown effect heffect).2, hlast⟩

/-! ## Visits -/

/-- What is served is told of the client alone. -/
theorem ServedOn.told (h : ServedOn i s t) : ∃ serving, t.effects = s.effects ++ serving ∧
    ∀ effect ∈ serving, effect.birth = some (s.client i).birth ∧ effect.serves = true := by
  obtain ⟨more, hmore, hown⟩ := h.served.spares.told
  obtain ⟨more', hmore', hserves⟩ := h.attends.told
  obtain rfl : more = more' := List.append_cancel_left (hmore.symm.trans hmore')
  exact ⟨more, hmore, fun effect heffect => ⟨hown effect heffect, hserves effect heffect⟩⟩

theorem VisitDone.told {now remaining remaining' : ℤ} {answers : VisitAnswers} {k : ℕ} {v : Visit}
    (h : VisitDone i now remaining answers k v s remaining' t) (hready : s.Ready i) : VisitTold i s t := by
  have hprepared : ∀ u : Server, (prepareToWait i now remaining u).1.effects = u.effects := fun u => by
    rw [prepareToWait_fst]
    split_ifs <;> rfl
  cases h with
  | @waits u on =>
    obtain ⟨serving, hserving, hall⟩ := on.told
    exact ⟨serving, [], by rw [hprepared, hserving, List.append_nil], hall,
      fun _ h => absurd h List.not_mem_nil, .nil _, fun h => absurd rfl h⟩
  | @ends u on unowned =>
    obtain ⟨serving, hserving, hall⟩ := on.told
    -- the peer has closed: nothing more is sent
    obtain ⟨closed, hclosed, honce⟩ := finalizeClient_effects i u
    have honce' : closed.Sublist [.closed (s.client i).birth] := by
      rw [on.ready.pollBirth, on.served.spares.self.birth] at honce
      exact honce
    have hown : ∀ effect ∈ closed, effect = .closed (s.client i).birth := fun effect heffect =>
      List.mem_singleton.mp (honce'.subset heffect)
    have hhistory : history (s.client i).birth closed = closed := history_of_own fun effect heffect => by
      rw [hown effect heffect]
      rfl
    have hlast : LastWords (s.client i).birth (history (s.client i).birth closed) := by
      rw [hhistory]
      exact .of_closed honce'
    refine ⟨serving, closed, ?_, hall, fun effect heffect => .inr (.inl (hown effect heffect)), hlast,
      fun _ => ?_⟩
    · rw [hprepared, hclosed, hserving, List.append_assoc]
    · rw [prepareToWait_client, finalizeClient_client on.ready.lt]
      rfl
  | @fails w e _ fails failed actions =>
    -- what was told up to the failure, and what the failure tells
    obtain ⟨serving, hserving, hown⟩ := failed.failed.spares.told
    obtain ⟨more', hmore', hserves⟩ := failed.attends.told
    obtain rfl : serving = more' := List.append_cancel_left (hserving.symm.trans hmore')
    have hspares := failed.failed.spares
    have hidentity := hspares.self
    have hlt : i < w.server.clients.elements.length := hspares.length ▸ hready.lt
    have hpoll : (w.server.ownPoll i).birth = (w.server.client i).birth := by
      rw [Server.ownPoll, Server.poll, hspares.polls, hidentity.birth]
      exact hready.pollBirth
    have hconnection : acceptingSocketIsConnection (w.server.client i).acceptingSocket = true :=
      hidentity.acceptingSocket ▸ hready.books.connection
    obtain ⟨ending, hending, haside, hlast⟩ := failureActions_lastWords hlt hconnection hpoll
      failed.lives actions
    obtain ⟨client, hclient⟩ := (failureActions_finalized hlt answers.taken e).of_eq_ok actions
    rw [hidentity.birth] at haside hlast
    refine ⟨serving, ending, ?_, fun effect heffect => ⟨hown effect heffect, hserves effect heffect⟩, haside,
      hlast, fun _ => ?_⟩
    · rw [hending, hserving, List.append_assoc]
    · rw [hclient]
      rfl

/-- A visit of a live client leaves it told of serving, and then of its end if it has one. -/
theorem VisitTold.toldOf (h : VisitTold i s t) (hpaired : s.Paired) (hi : i < s.clients.elements.length)
    (hlive : (s.client i).dead = false) (hvisited : Visited i s t) (hs : ∀ birth, s.ToldOf birth)
    (birth : ℕ) : t.ToldOf birth := by
  obtain ⟨serving, ending, heffects, hserving, haside, hlast, hdead⟩ := h.told
  have hown : history (s.client i).birth serving = serving := history_of_own fun effect heffect =>
    (hserving effect heffect).1
  by_cases hbirth : birth = (s.client i).birth
  · rw [hbirth]
    refine ⟨history (s.client i).birth s.effects ++ serving, history (s.client i).birth ending, ?_,
      fun effect heffect => ?_, hlast, fun hne k hk hklive hkbirth => ?_⟩
    · rw [heffects, history_append, history_append, hown, List.append_assoc]
    · rcases List.mem_append.mp heffect with heffect | heffect
      · exact (hs _).serving hi hlive effect heffect
      · exact (hserving effect heffect).2
    · have hk' : k < s.clients.elements.length := hvisited.length ▸ hk
      have hki : k = i := by
        by_contra hne
        obtain ⟨stream, hstream⟩ := hvisited.others k hne
        rw [hstream] at hkbirth
        exact hne (hpaired.birth_inj hk' hi hkbirth)
      rw [hki, hdead fun hnil => hne (by rw [hnil]; rfl)] at hklive
      exact Bool.noConfusion hklive
  · refine (hs birth).congr ?_ fun k hk hklive hkbirth => ?_
    · have hquiet : history birth serving = [] := history_of_others fun effect heffect heq =>
        hbirth (Option.some.inj (heq.symm.trans (hserving effect heffect).1))
      have hquiet' : history birth (s.effects ++ ending) = history birth s.effects :=
        history_aside_of_ne haside hbirth
      rw [history_append] at hquiet'
      rw [heffects, history_append, history_append, hquiet, List.nil_append]
      exact hquiet'
    · have hki : k ≠ i := fun hki => hbirth (by
        rw [← hkbirth, hki]
        exact hvisited.self.birth)
      obtain ⟨stream, hstream⟩ := hvisited.others k hki
      rw [hstream] at hklive hkbirth
      exact ⟨k, hvisited.length ▸ hk, hklive, hkbirth⟩

/-! ## Runs -/

/-- Who is left by the compaction lived before. -/
theorem clientsRemoveFinalized_livedBefore (hpaired : s.Paired) (birth : ℕ) :
    LivedBefore birth s (clientsRemoveFinalized s) := by
  intro k hk hlive hbirth
  have hmem : (clientsRemoveFinalized s).client k ∈ (clientsRemoveFinalized s).clients.elements :=
    Server.mem_clients_iff.mpr ⟨k, hk, rfl⟩
  rw [(clientsRemoveFinalized_compacted hpaired).clients] at hmem
  obtain ⟨j, hj, hclient⟩ := Server.mem_clients_iff.mp (List.mem_filter.mp hmem).1
  exact ⟨j, hj, hclient ▸ hlive, hclient ▸ hbirth⟩

theorem ServerStep.toldOf {state state' : Phase × Server} {input : ServerInput}
    (h : ServerStep state input state') (htabled : Tabled state) (hs : Delivering state)
    (htold : ∀ birth, state.2.ToldOf birth) (birth : ℕ) : state'.2.ToldOf birth := by
  obtain ⟨hpaired, hplaces⟩ := htabled
  obtain ⟨horder, hliving⟩ := hs
  cases h with
  | poll => exact (htold birth).congr rfl fun k hk hlive hbirth => ⟨k, hk, hlive, hbirth⟩
  | @accept s t now load index rest answers returns =>
    obtain ⟨-, hplain⟩ := hliving
    have hat := hplain index List.mem_cons_self
    rcases (serverAcceptSocket_cases hpaired.size index load now answers).of_eq_ok returns with
      ⟨rfl, -⟩ | ⟨hasked, hserved⟩ | ⟨hready, hmessage, -, -⟩
    · exact htold birth
    · obtain ⟨hcalm, hready, hconnection⟩ := Server.acceptsAt_iff.mp hasked
      have haccept : serverAcceptConnection index load now answers.connection s = .ok () t := by
        rw [← returns, serverAcceptSocket, hcalm.1, hcalm.2, if_neg (by decide),
          if_neg (not_not.mpr hready), if_pos hconnection]
      exact hserved.toldOf hpaired htold (horder.unborn _ (Nat.le_refl _))
        ((serverAcceptConnection_aside fun _ => rfl).of_eq_ok haccept) birth
    · have hconnection := hat.2 hready
      rw [acceptingSocketIsPlain, hmessage] at hconnection
      cases hconnection
  | shuffle s now load choices =>
    refine (htold birth).congr rfl fun k hk hlive hbirth => ?_
    rw [length_clientsShuffle] at hk
    obtain ⟨shuffleIndex, -, hclient⟩ := client_clientsShuffle choices hk
    rw [hclient] at hlive hbirth
    exact ⟨k, hk, hlive, hbirth⟩
  | @visit s t now remaining remaining' place rest answers fuel returns =>
    have hi := hplaces place List.mem_cons_self
    have hlive := hliving.2 place List.mem_cons_self
    have hready := horder.ready hpaired hi hlive
    have hvisited := (serverProcessClient_visited hi now remaining answers fuel).of_eq_ok returns
    have hdone := (serverProcessClientLoop_done (v := startVisit (s.visited place) s) now remaining answers
      fuel 0 hready.refl).of_eq_ok returns
    exact (hdone.told hready).toldOf hpaired hi hlive hvisited htold birth
  | remove s => exact (htold birth).congr rfl (clientsRemoveFinalized_livedBefore hpaired birth)

/-- In every run without a disturbance: what is told about a connection is serving, in which it was sent the
front of what was generated for it, and then its end, which has at most one fixed text and one `close()`; and
who has had an end does not live. -/
theorem serverRun_lastWords {polls : Buffer Poll} (hpolls : polls.elements.length = acceptingSockets)
    {inputs : List ServerInput} {phase : Phase}
    (hrun : Runs (StepsWhere Undisturbed ServerStep) (startState polls) inputs (phase, s)) (birth : ℕ) :
    ∃ serving ending, history birth s.effects = serving ++ ending ∧
      (∀ effect ∈ serving, effect.serves = true) ∧ sentIn serving <+: texts (generatedIn serving) ∧
      LastWords birth ending ∧
      (ending ≠ [] →
        ∀ i < s.clients.elements.length, (s.client i).dead = false → (s.client i).birth ≠ birth) := by
  have hinvariant := serverRun_invariant (P := fun state => Delivering state ∧ ∀ birth, state.2.ToldOf birth)
    hpolls ⟨startState_delivering polls, fun birth => ⟨[], [], rfl, fun _ h => absurd h List.not_mem_nil,
      .nil _, fun h => absurd rfl h⟩⟩ (fun _ _ _ htabled hs hundisturbed hstep =>
        ⟨hstep.delivering htabled hs.1 hundisturbed, hstep.toldOf htabled hs.1 hs.2⟩) hrun
  obtain ⟨-, hdelivering, htold⟩ := hinvariant
  obtain ⟨serving, ending, hhistory, hserving, hlast, hdead⟩ := htold birth
  refine ⟨serving, ending, hhistory, hserving, ?_, hlast, hdead⟩
  have hfront := hdelivering.order.front birth
  rw [SentFromFront, hhistory, sentIn_append, generatedIn_append, hlast.sent.1, hlast.sent.2, List.append_nil,
    List.append_nil] at hfront
  exact hfront

/-- A reader of Nex sends a request, and takes the whole answer. -/
def wholeVisit : VisitAnswers where
  rounds
    | 0 => { quietRound with
      receive := { quietRound.receive with stream := ⟨grantAll, .data 120 (ascii "\r\n"), .wouldBlock⟩ }
      send := ⟨⟨.took 4096 (by decide), .took 4096 (by decide)⟩, ⟨.wouldBlock, .wouldBlock⟩⟩ }
    | _ => quietRound
  taken := 0

/-- It was sent something, and then its connection was closed. -/
theorem serverRun_lastWords_closed : ∃ inputs phase t,
    Runs (StepsWhere Undisturbed ServerStep) (startState listening) inputs (phase, t) ∧
    (sentIn (history 0 t.effects) ≠ [] ∧ (history 0 t.effects).getLast? = some (.closed 0)) ∧
    ∃ serving ending, history 0 t.effects = serving ++ ending ∧
      (∀ effect ∈ serving, effect.serves = true) ∧ sentIn serving <+: texts (generatedIn serving) ∧
      LastWords 0 ending ∧
      (ending ≠ [] →
        ∀ i < t.clients.elements.length, (t.client i).dead = false → (t.client i).birth ≠ 0) := by
  obtain ⟨inputs, s, hrun, hplace, hrounds, hvisit⟩ := reader_connects (P := fun s => s.visited 0 = 0 ∧
    (serverProcessClientRound 0 0 (wholeVisit.rounds 0) (startVisit 0 s)).returnsIn (fun v =>
      (serverProcessClientRound 0 0 (wholeVisit.rounds 1) { v with doneSomething := false }).returnsIn
        (fun w => w.doneSomething = false) = true) = true ∧
    (serverProcessClient 0 0 intMax wholeVisit 5 s).returnsIn (fun t =>
      sentIn (history 0 t.effects) ≠ [] ∧ (history 0 t.effects).getLast? = some (.closed 0)) = true)
    (by decide +kernel)
  obtain ⟨_, v, hround, hnext⟩ := Outcome.exists_of_returnsIn hrounds
  obtain ⟨_, w, hround', hidle⟩ := Outcome.exists_of_returnsIn (of_decide_eq_true hnext)
  obtain ⟨remaining, t, hreturns, hclosed⟩ := Outcome.exists_of_returnsIn hvisit
  have hvisited : StepsWhere Undisturbed ServerStep (.visiting 0 intMax [0], s) (.visit wholeVisit 5)
      (.visiting 0 remaining [], t) := by
    have hnever := not_loopFails_of_two (u := startVisit 0 s) hround hround' (of_decide_eq_true hidle)
    refine ⟨fun e u hfails => absurd ?_ (hnever e u), .visit (by rw [hplace]; exact hreturns)⟩
    rwa [hplace] at hfails
  have hruns := hrun.concat hvisited
  exact ⟨_, _, t, hruns, of_decide_eq_true hclosed, serverRun_lastWords rfl hruns 0⟩

end Twinkleshine
