import Twinkleshine.Server.Tables
import Twinkleshine.Server.Visit

/-!
# The server, step by step

`server_main` makes one pass after the other. A `ServerStep` is the part of a pass that one answer from
outside decides: the call of `poll()`, the service of one listening socket, the shuffle, the visit of
one client, and the removal of the clients that were finalized. `serverProcessClients_runs` says that a
pass that returns is a run of such steps, so what holds in every state that the steps reach holds
within every pass and after it. The tables stay paired in every run.
-/

namespace Twinkleshine

open Library

/-! ## Steps -/

/-- Where the server stands. -/
inductive Phase where
  /-- It calls `poll()`, which may wait so long. -/
  | waiting (remaining : ℤ)
  /-- It serves the listening sockets; these are left. -/
  | accepting (now : ℤ) (load : ServerLoad) (rest : List ℕ)
  /-- It visits the clients; these places are left. -/
  | visiting (now remaining : ℤ) (rest : List ℕ)
deriving DecidableEq, Repr

/-- What decides a step. -/
inductive ServerInput where
  | poll (revents : ℕ → PollEvents) (now : ℤ) (maxMemory maxUtilization : Bool)
  | accept (answers : SocketAnswers)
  | shuffle (choices : ℕ → ℕ)
  | visit (answers : VisitAnswers) (fuel : ℕ)
  | remove

/-- The load that `server_accept_traffic` computes before it serves the first listening socket. -/
def Server.load (s : Server) (maxMemory maxUtilization : Bool) : ServerLoad :=
  ⟨s.clients.elements.length ≥ maxClients, maxMemory, maxUtilization⟩

/-- The client that is visited next. -/
def Server.visited (s : Server) (place : ℕ) : ℕ := (s.client place).shuffleIndex

/-- One step of the server. An error of a step ends the program. -/
inductive ServerStep : Phase × Server → ServerInput → Phase × Server → Prop where
  | poll (s : Server) (remaining : ℤ) (revents : ℕ → PollEvents) (now : ℤ)
      (maxMemory maxUtilization : Bool) :
      ServerStep (.waiting remaining, s) (.poll revents now maxMemory maxUtilization)
        (.accepting now (s.load maxMemory maxUtilization) (List.range acceptingSockets),
          pollAll revents s)
  | accept {s t : Server} {now : ℤ} {load : ServerLoad} {index : ℕ} {rest : List ℕ}
      {answers : SocketAnswers} (returns : serverAcceptSocket load now answers index s = .ok () t) :
      ServerStep (.accepting now load (index :: rest), s) (.accept answers)
        (.accepting now load rest, t)
  | shuffle (s : Server) (now : ℤ) (load : ServerLoad) (choices : ℕ → ℕ) :
      ServerStep (.accepting now load [], s) (.shuffle choices)
        (.visiting now intMax (List.range s.clients.elements.length), clientsShuffle choices s)
  | visit {s t : Server} {now remaining remaining' : ℤ} {place : ℕ} {rest : List ℕ}
      {answers : VisitAnswers} {fuel : ℕ}
      (returns : serverProcessClient (s.visited place) now remaining answers fuel s
        = .ok remaining' t) :
      ServerStep (.visiting now remaining (place :: rest), s) (.visit answers fuel)
        (.visiting now remaining' rest, t)
  | remove (s : Server) (now remaining : ℤ) :
      ServerStep (.visiting now remaining [], s) .remove
        (.waiting remaining, clientsRemoveFinalized s)

/-! ## The shuffle -/

/-- The swaps permute the indices. -/
theorem shuffleLoop_perm (choices : ℕ → ℕ) {n : ℕ} {indices : List ℕ} (hn : n < indices.length) :
    (shuffleLoop choices n indices).Perm indices := by
  induction n generalizing indices with
  | zero => exact .refl indices
  | succ n ih =>
    have hj : choices (n + 1) % (n + 2) < indices.length :=
      Nat.lt_of_lt_of_le (Nat.mod_lt _ (by omega)) (by omega)
    rw [shuffleLoop]
    refine (ih (by rw [List.length_set, List.length_set]; omega)).trans ?_
    rw [List.getD_eq_getElem?_getD, List.getD_eq_getElem?_getD, List.getElem?_eq_getElem hn,
      List.getElem?_eq_getElem hj, Option.getD_some, Option.getD_some]
    exact List.set_set_perm hn hj

/-- The shuffle indices are all indices of clients, each of them once. -/
theorem shuffledIndices_perm (choices : ℕ → ℕ) (size : ℕ) :
    (shuffledIndices choices size).Perm (List.range size) := by
  rcases size with _ | size
  · exact .refl _
  · exact shuffleLoop_perm choices (by rw [List.length_range]; omega)

theorem length_shuffledIndices (choices : ℕ → ℕ) (size : ℕ) :
    (shuffledIndices choices size).length = size := by
  rw [(shuffledIndices_perm choices size).length_eq, List.length_range]

variable {s : Server}

@[simp] theorem length_clientsShuffle (choices : ℕ → ℕ) (s : Server) :
    (clientsShuffle choices s).clients.elements.length = s.clients.elements.length := by
  simp [clientsShuffle, length_shuffledIndices]

/-- The shuffle gives every client an index. -/
theorem client_clientsShuffle (choices : ℕ → ℕ) {i : ℕ} (hi : i < s.clients.elements.length) :
    ∃ shuffleIndex, (shuffledIndices choices s.clients.elements.length)[i]? = some shuffleIndex ∧
      (clientsShuffle choices s).client i = { s.client i with shuffleIndex := shuffleIndex } := by
  have hlength := length_shuffledIndices choices s.clients.elements.length
  have hindex := List.getElem?_eq_getElem (l := shuffledIndices choices s.clients.elements.length)
    (i := i) (by omega)
  refine ⟨_, hindex, ?_⟩
  simp only [clientsShuffle, Server.client, List.getD_eq_getElem?_getD, List.getElem?_zipWith, hindex,
    List.getElem?_eq_getElem hi, Option.getD_some]

/-- Whatever is said of a client that is shuffled is about an index of the table. -/
theorem visited_clientsShuffle_lt (choices : ℕ → ℕ) {place : ℕ}
    (hplace : place < s.clients.elements.length) :
    (clientsShuffle choices s).visited place < s.clients.elements.length := by
  obtain ⟨shuffleIndex, hindex, hclient⟩ := client_clientsShuffle choices hplace
  rw [Server.visited, hclient]
  have hmem := (shuffledIndices_perm choices s.clients.elements.length).mem_iff.mp
    (List.mem_of_getElem? hindex)
  exact List.mem_range.mp hmem

/-- Every client is visited. -/
theorem exists_visited_clientsShuffle (choices : ℕ → ℕ) {i : ℕ}
    (hi : i < s.clients.elements.length) :
    ∃ place < s.clients.elements.length, (clientsShuffle choices s).visited place = i := by
  have hmem := (shuffledIndices_perm choices s.clients.elements.length).mem_iff.mpr
    (List.mem_range.mpr hi)
  obtain ⟨place, hplace⟩ := List.mem_iff_getElem?.mp hmem
  have hlt : place < s.clients.elements.length := by
    rw [← length_shuffledIndices choices s.clients.elements.length]
    exact (List.getElem?_eq_some_iff.mp hplace).1
  obtain ⟨shuffleIndex, hindex, hclient⟩ := client_clientsShuffle choices hlt
  refine ⟨place, hlt, ?_⟩
  rw [Server.visited, hclient]
  exact Option.some.inj (hindex.symm.trans hplace)

/-! ## Passes are runs -/

/-- The loop over the listening sockets is a run, whose steps meet a condition that holds wherever the loop
comes to a socket. -/
theorem acceptSockets_runsWhere (condition : Phase × Server → ServerInput → Prop) {load : ServerLoad}
    {now : ℤ} {answers : ℕ → SocketAnswers} {indices : List ℕ} {s t : Server}
    (h : acceptSockets load now answers indices s = .ok () t)
    (hcondition : ∀ before index rest u, indices = before ++ index :: rest →
      acceptSockets load now answers before s = .ok () u →
        condition (.accepting now load (index :: rest), u) (.accept (answers index))) :
    ∃ inputs, Runs (StepsWhere condition ServerStep) (.accepting now load indices, s) inputs
      (.accepting now load [], t) := by
  induction indices generalizing s with
  | nil =>
    obtain ⟨-, rfl⟩ := Outcome.ok.inj h
    exact ⟨[], .nil _⟩
  | cons index indices ih =>
    obtain ⟨_, u, hsocket, hrest⟩ := Outcome.andThen_eq_ok.mp h
    obtain ⟨inputs, hrun⟩ := ih hrest fun before next rest v hsplit hbefore => by
      refine hcondition (index :: before) next rest v (by rw [hsplit, List.cons_append]) ?_
      rw [acceptSockets, hsocket, Outcome.andThen_ok, hbefore]
    exact ⟨_, .cons ⟨hcondition [] index indices s rfl rfl, .accept hsocket⟩ hrun⟩

/-- The same for a condition that says nothing about such steps. -/
theorem acceptSockets_runs (condition : Phase × Server → ServerInput → Prop) {load : ServerLoad}
    {now : ℤ} (hcondition : ∀ rest s input, condition (.accepting now load rest, s) input)
    {answers : ℕ → SocketAnswers} {indices : List ℕ} {s t : Server}
    (h : acceptSockets load now answers indices s = .ok () t) :
    ∃ inputs, Runs (StepsWhere condition ServerStep) (.accepting now load indices, s) inputs
      (.accepting now load [], t) :=
  acceptSockets_runsWhere condition h fun _ _ _ _ _ _ => hcondition _ _ _

theorem visitClients_runs {now remaining remaining' : ℤ} {visits : ℕ → VisitAnswers} {fuel : ℕ}
    {places : List ℕ} {s t : Server}
    (h : visitClients now visits fuel places remaining s = .ok remaining' t) :
    ∃ inputs, Runs ServerStep (.visiting now remaining places, s) inputs
      (.visiting now remaining' [], t) := by
  induction places generalizing remaining s with
  | nil =>
    obtain ⟨rfl, rfl⟩ := Outcome.ok.inj h
    exact ⟨[], .nil _⟩
  | cons place places ih =>
    obtain ⟨_, u, hvisit, hrest⟩ := Outcome.andThen_eq_ok.mp h
    obtain ⟨inputs, hrun⟩ := ih hrest
    exact ⟨_, .cons (.visit hvisit) hrun⟩

/-- A pass of `server_process_clients` that returns is a run of steps. -/
theorem serverProcessClients_runs {answers : PassAnswers} {s t : Server} {remaining : ℤ}
    (h : serverProcessClients answers s = .ok remaining t) (before : ℤ) :
    ∃ inputs, Runs ServerStep (.waiting before, s) inputs (.waiting remaining, t) := by
  obtain ⟨_, s₁, haccept, hrest⟩ := Outcome.andThen_eq_ok.mp h
  obtain ⟨remaining', s₂, hvisit, hremove⟩ := Outcome.andThen_eq_ok.mp hrest
  obtain ⟨rfl, rfl⟩ := Outcome.ok.inj hremove
  obtain ⟨accepts, hwhere⟩ := acceptSockets_runs (fun _ _ => True) (fun _ _ _ => trivial) haccept
  have hrun₁ := hwhere.mono fun _ _ _ hstep => hstep.2
  obtain ⟨visits, hrun₂⟩ := visitClients_runs hvisit
  rw [length_clientsShuffle] at hrun₂
  exact ⟨_, .cons (.poll s before answers.revents answers.now answers.maxMemory
    answers.maxUtilization) (hrun₁.append (.cons (.shuffle s₁ answers.now _ answers.choices)
      (hrun₂.concat (.remove s₂ answers.now remaining'))))⟩

/-! ## Steps keep the tables paired -/

section

variable {t : Server}

theorem SocketServed.paired {index : ℕ} {load : ServerLoad} {now : ℤ} {answers : SocketAnswers}
    (h : SocketServed index load now answers s t) (hs : s.Paired) : t.Paired := by
  rcases h with ⟨rfl, -⟩ | ⟨-, served⟩ | ⟨-, -, -, served⟩
  · exact hs
  · rcases served.tables with h | h
    · exact h.paired hs
    · exact h.paired hs
  · rcases served.tables with h | h | h
    · exact h.paired hs
    · exact h.paired hs
    · exact h.paired hs

theorem map_eq_of_getD_eq {α β : Type} {l l' : List α} (default : α) (f : α → β)
    (hlength : l'.length = l.length) (h : ∀ i, f (l'.getD i default) = f (l.getD i default)) :
    l'.map f = l.map f := by
  refine List.ext_getElem (by rw [List.length_map, List.length_map, hlength]) fun i hi hi' => ?_
  rw [List.length_map] at hi hi'
  have hget := h i
  rw [List.getD_eq_getElem?_getD, List.getD_eq_getElem?_getD, List.getElem?_eq_getElem hi,
    List.getElem?_eq_getElem hi'] at hget
  rw [List.getElem_map, List.getElem_map]
  exact hget

theorem Visited.paired {i : ℕ} (h : Visited i s t) (hs : s.Paired) : t.Paired := by
  refine hs.congr (map_eq_of_getD_eq .zero _ h.length fun j => ?_)
    (map_eq_of_getD_eq .zero _ h.polls fun k => ?_) h.births.ge
  · by_cases hj : j = i
    · rw [hj]
      exact h.self.birth
    · obtain ⟨stream, hstream⟩ := h.others j hj
      show (t.client j).birth = (s.client j).birth
      rw [hstream]
  · by_cases hk : k = acceptingSockets + i
    · rw [hk]
      exact h.pollBirth
    · exact congrArg Poll.birth (h.otherPolls k hk)

theorem pollAll_paired (revents : ℕ → PollEvents) (hs : s.Paired) : (pollAll revents s).Paired := by
  refine hs.congr rfl ?_ (Nat.le_refl _)
  refine List.ext_getElem (by simp [pollAll]) fun k hk hk' => ?_
  simp [pollAll]

theorem clientsShuffle_paired (choices : ℕ → ℕ) (hs : s.Paired) :
    (clientsShuffle choices s).Paired := by
  refine hs.congr (map_eq_of_getD_eq .zero _ (length_clientsShuffle choices s) fun i => ?_) rfl
    (Nat.le_refl _)
  by_cases hi : i < s.clients.elements.length
  · obtain ⟨shuffleIndex, -, hclient⟩ := client_clientsShuffle choices hi
    show ((clientsShuffle choices s).client i).birth = (s.client i).birth
    rw [hclient]
  · have hi' := Nat.not_lt.mp hi
    rw [List.getD_eq_getElem?_getD, List.getD_eq_getElem?_getD, List.getElem?_eq_none hi',
      List.getElem?_eq_none (by rw [length_clientsShuffle]; exact hi')]

end

/-- The places that are left belong to clients of the table, which are visited under their indices. -/
def PlacesIn (phase : Phase) (s : Server) : Prop :=
  match phase with
  | .visiting _ _ rest => ∀ place ∈ rest, s.visited place < s.clients.elements.length
  | _ => True

/-- The facts about the tables that hold in every state the server reaches. -/
structure Tabled (state : Phase × Server) : Prop where
  paired : state.2.Paired
  places : PlacesIn state.1 state.2

/-- A visit changes nobody's shuffle index. -/
theorem Visited.visited_eq {i : ℕ} {t : Server} (h : Visited i s t) (place : ℕ) :
    t.visited place = s.visited place := by
  by_cases hplace : place = i
  · rw [hplace]
    exact h.self.shuffleIndex
  · obtain ⟨stream, hstream⟩ := h.others place hplace
    rw [Server.visited, hstream]
    rfl

theorem ServerStep.tabled {state state' : Phase × Server} {input : ServerInput}
    (h : ServerStep state input state') (hs : Tabled state) : Tabled state' := by
  obtain ⟨hpaired, hplaces⟩ := hs
  cases h with
  | poll => exact ⟨pollAll_paired _ hpaired, trivial⟩
  | accept returns =>
    have hserved := (serverAcceptSocket_cases hpaired.size _ _ _ _).of_eq_ok returns
    exact ⟨hserved.paired hpaired, trivial⟩
  | shuffle s now load choices =>
    refine ⟨clientsShuffle_paired choices hpaired, fun place hplace => ?_⟩
    rw [length_clientsShuffle]
    exact visited_clientsShuffle_lt choices (List.mem_range.mp hplace)
  | visit returns =>
    have hvisited := (serverProcessClient_visited (hplaces _ List.mem_cons_self) _ _ _ _).of_eq_ok
      returns
    refine ⟨hvisited.paired hpaired, fun place hplace => ?_⟩
    rw [hvisited.visited_eq, hvisited.length]
    exact hplaces place (List.mem_cons_of_mem _ hplace)
  | remove => exact ⟨(clientsRemoveFinalized_compacted hpaired).paired hpaired rfl, trivial⟩

/-- Where the server starts: it listens, and waits for the first event. -/
def startState (polls : Buffer Poll) : Phase × Server := (.waiting intMax, .initial polls)

theorem startState_tabled {polls : Buffer Poll} (hpolls : polls.elements.length = acceptingSockets) :
    Tabled (startState polls) :=
  ⟨Server.initial_paired hpolls, trivial⟩

/-- What one step of the server keeps where a condition is met, if the tables are in order, holds in
every run whose steps all meet it. -/
theorem serverRun_invariant {condition : Phase × Server → ServerInput → Prop}
    {P : Phase × Server → Prop} {polls : Buffer Poll}
    (hpolls : polls.elements.length = acceptingSockets) (hstart : P (startState polls))
    (hstep : ∀ state input state', Tabled state → P state → condition state input →
      ServerStep state input state' → P state')
    {inputs : List ServerInput} {state : Phase × Server}
    (hrun : Runs (StepsWhere condition ServerStep) (startState polls) inputs state) :
    Tabled state ∧ P state := by
  have hkeeps : ∀ u input u', Tabled u ∧ P u → StepsWhere condition ServerStep u input u' →
      Tabled u' ∧ P u' := fun u input u' h hcond =>
    ⟨hcond.2.tabled h.1, hstep u input u' h.1 h.2 hcond.1 hcond.2⟩
  exact hrun.invariant ⟨startState_tabled hpolls, hstart⟩ hkeeps

end Twinkleshine
