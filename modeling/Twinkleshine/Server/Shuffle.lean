import Twinkleshine.Library.FisherYates
import Twinkleshine.Library.Sampling
import Twinkleshine.Server.Limit

/-!
# The order of the visits

Reference: `clients_shuffle` in `source/client.c`, `server_process_clients` in
`source/server/high_level.c`.

The swaps of `clients_shuffle` are a Fisher–Yates shuffle, so each order of the clients is the result of
exactly one sequence of choices. A visit leaves the shuffle indices alone, so the pass visits the clients
in the order that was stored.
-/

namespace Twinkleshine

open Library

/-! ## The shuffle indices -/

/-- The loop exchanges from the last index down. -/
theorem shuffleLoop_eq (choices : ℕ → ℕ) {n : ℕ} {indices : List ℕ} (hn : n < indices.length) :
    shuffleLoop choices n indices = fisherYates (fun i => choices i % (i + 1)) n indices := by
  induction n generalizing indices with
  | zero => rfl
  | succ n ih =>
    have hj : choices (n + 1) % (n + 2) < indices.length :=
      Nat.lt_of_lt_of_le (Nat.mod_lt _ (by omega)) (by omega)
    rw [shuffleLoop, fisherYates, ih (by rw [List.length_set, List.length_set]; omega),
      exchange_eq hn hj, List.getD_eq_getElem?_getD, List.getD_eq_getElem?_getD,
      List.getElem?_eq_getElem hn, List.getElem?_eq_getElem hj, Option.getD_some, Option.getD_some]

/-- Choices that `random_rand` can return are shuffled with as they are. -/
theorem shuffledIndices_atPosition {n : ℕ} (c : Choices n) :
    shuffledIndices c.atPosition n = c.shuffled.val := by
  rcases n with _ | n
  · rfl
  · have hmod : (fun i => c.atPosition i % (i + 1)) = c.atPosition := by
      funext i
      exact Nat.mod_eq_of_lt (Nat.lt_succ_of_le (c.atPosition_le i))
    rw [shuffledIndices, shuffleLoop_eq _ (by rw [List.length_range]; omega), hmod]
    rfl

/-- `shuffle_index` of all clients. -/
def Server.shuffleIndices (s : Server) : List ℕ := s.clients.elements.map (·.shuffleIndex)

theorem shuffleIndices_clientsShuffle (choices : ℕ → ℕ) (s : Server) :
    (clientsShuffle choices s).shuffleIndices
      = shuffledIndices choices s.clients.elements.length := by
  have hlength := length_shuffledIndices choices s.clients.elements.length
  refine List.ext_getElem? fun i => ?_
  by_cases hi : i < s.clients.elements.length
  · rw [Server.shuffleIndices, clientsShuffle, List.getElem?_map, List.getElem?_zipWith,
      List.getElem?_eq_getElem hi, List.getElem?_eq_getElem (hlength.symm ▸ hi)]
    rfl
  · have hshort : (clientsShuffle choices s).shuffleIndices.length ≤ i := by
      rw [Server.shuffleIndices, List.length_map, length_clientsShuffle]
      exact Nat.not_lt.mp hi
    rw [List.getElem?_eq_none hshort, List.getElem?_eq_none (hlength.symm ▸ Nat.not_lt.mp hi)]

/-- The order that a sequence of choices stores in the clients. -/
def Server.shuffledInto (s : Server) (c : Choices s.clients.elements.length) :
    Arrangement s.clients.elements.length :=
  ⟨(clientsShuffle c.atPosition s).shuffleIndices, by
    rw [shuffleIndices_clientsShuffle]
    exact shuffledIndices_perm _ _⟩

theorem Server.shuffledInto_eq (s : Server) : s.shuffledInto = Choices.shuffled := by
  funext c
  refine Subtype.ext ?_
  exact (shuffleIndices_clientsShuffle _ s).trans (shuffledIndices_atPosition c)

/-! ## The visits of a pass -/

/-- The clients that the loop of `server_process_clients` visits, in order. -/
def visitedClients (now : ℤ) (visits : ℕ → VisitAnswers) (fuel : ℕ) :
    List ℕ → ℤ → Server → List ℕ
  | [], _, _ => []
  | place :: rest, remaining, s =>
    s.visited place ::
      match serverProcessClient (s.visited place) now remaining (visits place) fuel s with
      | .ok remaining s => visitedClients now visits fuel rest remaining s
      | .error _ _ => []
      | .hang => []

/-- The clients that a pass visits, in order. -/
def passVisits (answers : PassAnswers) (s : Server) : List ℕ :=
  match serverAcceptTraffic answers.maxMemory answers.maxUtilization answers.now answers.sockets
      (pollAll answers.revents s) with
  | .ok _ s =>
    let s := clientsShuffle answers.choices s
    visitedClients answers.now answers.visits answers.fuel (List.range s.clients.elements.length)
      intMax s
  | .error _ _ => []
  | .hang => []

variable {now remaining remaining' : ℤ} {visits : ℕ → VisitAnswers} {fuel : ℕ} {places : List ℕ}
  {s t : Server}

/-- A loop that does not reach the end has visited the first clients of the order. -/
theorem visitedClients_prefix (now remaining : ℤ) (visits : ℕ → VisitAnswers) (fuel : ℕ)
    (hplaces : ∀ place ∈ places, s.visited place < s.clients.elements.length) :
    visitedClients now visits fuel places remaining s <+: places.map s.visited := by
  induction places generalizing remaining s with
  | nil => exact List.prefix_refl []
  | cons place places ih =>
    rw [visitedClients, List.map_cons, List.cons_prefix_cons]
    refine ⟨rfl, ?_⟩
    split
    · rename_i remaining' t hvisit
      have hvisited := (serverProcessClient_visited (hplaces place List.mem_cons_self) _ _ _ _).of_eq_ok
        hvisit
      have hsame : t.visited = s.visited := funext hvisited.visited_eq
      rw [← hsame]
      refine ih _ fun place hplace => ?_
      rw [hsame, hvisited.length]
      exact hplaces place (List.mem_cons_of_mem _ hplace)
    · exact List.nil_prefix
    · exact List.nil_prefix

/-- A loop that returns has visited a client for each place. -/
theorem length_visitedClients (h : visitClients now visits fuel places remaining s = .ok remaining' t) :
    (visitedClients now visits fuel places remaining s).length = places.length := by
  induction places generalizing remaining s with
  | nil => rfl
  | cons place places ih =>
    obtain ⟨_, u, hvisit, hrest⟩ := Outcome.andThen_eq_ok.mp h
    have hvisit' : serverProcessClient (s.visited place) now remaining (visits place) fuel s = .ok _ u :=
      hvisit
    rw [visitedClients, hvisit', List.length_cons, List.length_cons, ih hrest]

/-- The places of the clients, in the order of the places, hold the indices that were stored. -/
theorem map_visited_clientsShuffle (choices : ℕ → ℕ) (s : Server) :
    (List.range (clientsShuffle choices s).clients.elements.length).map (clientsShuffle choices s).visited
      = (clientsShuffle choices s).shuffleIndices := by
  generalize clientsShuffle choices s = s
  refine List.ext_getElem? fun i => ?_
  rw [List.getElem?_map, Server.shuffleIndices, List.getElem?_map]
  by_cases hi : i < s.clients.elements.length
  · rw [List.getElem?_range hi, List.getElem?_eq_getElem hi, Option.map_some, Option.map_some,
      Server.visited, Server.client, List.getD_eq_getElem?_getD, List.getElem?_eq_getElem hi,
      Option.getD_some]
  · rw [List.getElem?_eq_none (by rw [List.length_range]; omega), List.getElem?_eq_none (by omega)]
    rfl

/-- Whatever a pass comes to, its visits begin the stored order; a pass that returns visits it whole. -/
theorem passVisits_spec (answers : PassAnswers) (s : Server) :
    (passVisits answers s).Nodup ∧ ∀ remaining t,
      serverProcessClients answers s = .ok remaining t → ∃ accepted,
        serverAcceptTraffic answers.maxMemory answers.maxUtilization answers.now answers.sockets
          (pollAll answers.revents s) = .ok () accepted ∧
        passVisits answers s = (clientsShuffle answers.choices accepted).shuffleIndices := by
  unfold passVisits
  cases haccept : serverAcceptTraffic answers.maxMemory answers.maxUtilization answers.now
      answers.sockets (pollAll answers.revents s) with
  | ok a accepted =>
    have hplaces : ∀ place ∈ List.range (clientsShuffle answers.choices accepted).clients.elements.length,
        (clientsShuffle answers.choices accepted).visited place
          < (clientsShuffle answers.choices accepted).clients.elements.length := by
      intro place hplace
      rw [length_clientsShuffle] at hplace ⊢
      exact visited_clientsShuffle_lt _ (List.mem_range.mp hplace)
    have hfront := visitedClients_prefix answers.now intMax answers.visits answers.fuel hplaces
    rw [map_visited_clientsShuffle] at hfront
    refine ⟨hfront.sublist.nodup ?_, fun remaining t h => ⟨accepted, rfl, ?_⟩⟩
    · rw [shuffleIndices_clientsShuffle]
      exact (shuffledIndices_perm _ _).nodup_iff.mpr List.nodup_range
    · obtain ⟨_, u, haccept', hrest⟩ := Outcome.andThen_eq_ok.mp h
      obtain ⟨remaining', u', hvisit, -⟩ := Outcome.andThen_eq_ok.mp hrest
      obtain ⟨-, rfl⟩ := Outcome.ok.inj (haccept.symm.trans haccept')
      refine hfront.eq_of_length ?_
      rw [length_visitedClients hvisit, List.length_range, Server.shuffleIndices, List.length_map]
  | error e u =>
    refine ⟨List.nodup_nil, fun remaining t h => ?_⟩
    obtain ⟨_, _, haccept', -⟩ := Outcome.andThen_eq_ok.mp h
    cases haccept.symm.trans haccept'
  | hang =>
    refine ⟨List.nodup_nil, fun remaining t h => ?_⟩
    obtain ⟨_, _, haccept', -⟩ := Outcome.andThen_eq_ok.mp h
    cases haccept.symm.trans haccept'

/-- The choices of `clients_shuffle` are mapped one-to-one onto the orders of the clients, so uniform choices
make every order equally likely; and a pass that returns visits each client exactly once, in the order that
was stored. -/
theorem clientsShuffle_visitsOnce (s : Server) :
    Function.Bijective s.shuffledInto ∧
      (PMF.uniformOfFintype (Choices s.clients.elements.length)).map s.shuffledInto
        = PMF.uniformOfFintype (Arrangement s.clients.elements.length) ∧
      ∀ answers : PassAnswers, (passVisits answers s).Nodup ∧ ∀ remaining t,
        serverProcessClients answers s = .ok remaining t → ∃ accepted,
          serverAcceptTraffic answers.maxMemory answers.maxUtilization answers.now answers.sockets
            (pollAll answers.revents s) = .ok () accepted ∧
          passVisits answers s = (clientsShuffle answers.choices accepted).shuffleIndices ∧
          ∀ i < accepted.clients.elements.length, (passVisits answers s).count i = 1 := by
  have hbijective : Function.Bijective s.shuffledInto := by
    rw [s.shuffledInto_eq]
    exact fisherYates_bijective _
  refine ⟨hbijective, map_uniformOfFintype hbijective, fun answers => ?_⟩
  obtain ⟨hnodup, hreturns⟩ := passVisits_spec answers s
  refine ⟨hnodup, fun remaining t h => ?_⟩
  obtain ⟨accepted, haccept, horder⟩ := hreturns remaining t h
  refine ⟨accepted, haccept, horder, fun i hi => List.count_eq_one_of_mem hnodup ?_⟩
  rw [horder, shuffleIndices_clientsShuffle, (shuffledIndices_perm _ _).mem_iff]
  exact List.mem_range.mpr hi

/-- Two connections are accepted in a pass, and the second is visited before the first. -/
theorem clientsShuffle_visitsOnce_swapped : ∃ answers remaining t accepted,
    serverProcessClients answers (.initial listening) = .ok remaining t ∧
    passVisits answers (.initial listening) = [1, 0] ∧
    passVisits answers (.initial listening)
      = (clientsShuffle answers.choices accepted).shuffleIndices ∧
    ∀ i < accepted.clients.elements.length, (passVisits answers (.initial listening)).count i = 1 := by
  set answers : PassAnswers := ⟨readySockets 2, 0, false, false, fun _ => acceptedAnswers, fun _ => 0,
    fun _ => quietVisit, 5⟩
  have hpass : (serverProcessClients answers (.initial listening)).returnsIn
      (fun _ => passVisits answers (.initial listening) = [1, 0]) = true := by
    decide +kernel
  obtain ⟨remaining, t, hreturns, horder⟩ := Outcome.exists_of_returnsIn hpass
  obtain ⟨accepted, -, hstored, hcount⟩ :=
    ((clientsShuffle_visitsOnce (.initial listening)).2.2 answers).2 remaining t hreturns
  exact ⟨answers, remaining, t, accepted, hreturns, of_decide_eq_true horder, hstored, hcount⟩

end Twinkleshine
