import Twinkleshine.Server.Initialize
import Twinkleshine.Server.Requests

/-!
# Listening

Reference: `source/server/initialize.c`, `source/server/high_level.c`.

The entries of the listening sockets stay at the front of the table of polls, whatever is appended behind them
or removed there. What `server_initialize` says with the place of a socket is therefore true for as long as
the server runs: every client is served by the protocol whose port it has connected to.
-/

namespace Twinkleshine

open Library

/-- `poll()` ignores an entry without a descriptor, and reports nothing for it. -/
def IgnoresUnused : Phase × Server → ServerInput → Prop
  | (_, s), .poll revents _ _ _ => ∀ k, (s.poll k).fd = none → revents k = .none
  | _, _ => True

/-- The descriptors of the listening sockets, and what came through them. -/
structure Listens (descriptors : ℕ → Option ℕ) (state : Phase × Server) : Prop where
  polls : ∀ k < acceptingSockets, (state.2.poll k).fd = descriptors k
  clients : state.2.All fun client =>
    client.acceptingSocket < acceptingSockets ∧ (descriptors client.acceptingSocket).isSome = true
  /-- The sockets that are left can be told something only if they exist. -/
  reported : ∀ now load rest, state.1 = .accepting now load rest → ∀ k ∈ rest, k < acceptingSockets ∧
    ((state.2.poll k).revents.pollIn = true → (descriptors k).isSome = true)

section

variable {s t : Server}

theorem Server.poll_congr (h : t.polls.elements = s.polls.elements) (k : ℕ) : t.poll k = s.poll k := by
  rw [Server.poll, Server.poll, h]

/-- Nothing that happens at a listening socket changes an entry of a listening socket. -/
theorem SocketServed.listening {index : ℕ} {load : ServerLoad} {now : ℤ} {answers : SocketAnswers}
    (h : SocketServed index load now answers s t) (hs : s.Paired) {k : ℕ} (hk : k < acceptingSockets) :
    t.poll k = s.poll k := by
  have hsize := hs.size
  have happended : ∀ {poll}, t.polls.elements = s.polls.elements ++ [poll] → t.poll k = s.poll k := by
    intro poll hpolls
    rw [Server.poll, hpolls, List.getD_append _ _ _ _ (by omega), Server.poll]
  rcases h with ⟨rfl, -⟩ | ⟨-, served⟩ | ⟨-, -, -, served⟩
  · rfl
  · rcases served with ⟨-, same⟩ | ⟨-, -, same⟩ | ⟨-, -, -, -, same⟩ | ⟨-, -, -, -, admitted, -⟩
    · exact Server.poll_congr same.polls k
    · exact Server.poll_congr same.polls k
    · exact Server.poll_congr same.polls k
    · exact happended admitted.polls
  · rcases served with ⟨rfl⟩ | ⟨same⟩ | ⟨-, -, same, -⟩ | ⟨-, -, -, -, admitted, -⟩
    · rfl
    · exact Server.poll_congr same.polls k
    · -- a message of a known client is noted behind the listening sockets
      rw [Server.poll, same.polls, List.getD_eq_getElem?_getD, List.getElem?_set_ne (by omega),
        ← List.getD_eq_getElem?_getD, Server.poll]
    · exact happended admitted.polls

/-- Whoever is new came through the socket that was served, on which something was reported. -/
theorem SocketServed.cameThrough {P : Client → Prop} {index : ℕ} {load : ServerLoad} {now : ℤ}
    {answers : SocketAnswers} (h : SocketServed index load now answers s t) (hs : s.All P)
    (hnew : ∀ client, (s.poll index).revents.pollIn = true → client.acceptingSocket = index → P client) :
    t.All P := by
  rcases h with ⟨rfl, -⟩ | ⟨asked, served⟩ | ⟨ready, -, -, served⟩
  · exact hs
  · have hready := (Server.acceptsAt_iff.mp asked).2.1
    rcases served with ⟨-, same⟩ | ⟨-, -, same⟩ | ⟨-, -, -, -, same⟩ | ⟨-, -, -, made, admitted, -⟩
    · exact hs.congr same.clients
    · exact hs.congr same.clients
    · exact hs.congr same.clients
    · exact hs.admitted admitted (hnew _ hready (initializeClient_identity made).acceptingSocket)
  · rcases served with ⟨rfl⟩ | ⟨same⟩ | ⟨-, -, same, -⟩ | ⟨-, -, -, -, admitted, -⟩
    · exact hs
    · exact hs.congr same.clients
    · exact hs.congr (congrArg Buffer.elements same.clients)
    · exact hs.admitted admitted (hnew _ ready rfl)

end

/-- What listens, listens after every step. -/
theorem ServerStep.listens {descriptors : ℕ → Option ℕ} {state state' : Phase × Server} {input : ServerInput}
    (h : ServerStep state input state') (htabled : Tabled state) (hs : Listens descriptors state)
    (hunused : IgnoresUnused state input) : Listens descriptors state' := by
  obtain ⟨hpaired, hplaces⟩ := htabled
  obtain ⟨hpolls, hclients, hreported⟩ := hs
  have hsize := hpaired.size
  cases h with
  | poll s remaining revents now maxMemory maxUtilization =>
    dsimp only at hpolls hclients hsize
    -- a call of poll() writes what was reported, and reports nothing of unused entries
    have hpoll : ∀ k < acceptingSockets,
        (pollAll revents s).poll k = { s.poll k with revents := revents k } := fun k hk =>
      poll_pollAll revents (by omega)
    refine ⟨fun k hk => ?_, hclients, ?_⟩
    · dsimp only
      rw [hpoll k hk]
      exact hpolls k hk
    · rintro now load rest hphase k hk
      obtain ⟨-, -, rfl⟩ := Phase.accepting.inj hphase
      have hk := List.mem_range.mp hk
      refine ⟨hk, fun hready => ?_⟩
      dsimp only at hready
      rw [hpoll k hk] at hready
      by_contra hnone
      rw [Option.not_isSome_iff_eq_none, ← hpolls k hk] at hnone
      rw [hunused k hnone] at hready
      exact Bool.false_ne_true hready
  | @accept s t now load index rest answers returns =>
    -- whoever is accepted came through the socket, which was reported
    have hserved := (serverAcceptSocket_cases hsize index load now answers).of_eq_ok returns
    obtain ⟨hindex, hsocket⟩ := hreported _ _ _ rfl index List.mem_cons_self
    refine ⟨fun k hk => ?_, ?_, ?_⟩
    · dsimp only
      rw [hserved.listening hpaired hk]
      exact hpolls k hk
    · refine hserved.cameThrough hclients fun client hready hcame => ?_
      rw [hcame]
      exact ⟨hindex, hsocket hready⟩
    · rintro now' load' rest' hphase k hk
      obtain ⟨-, -, rfl⟩ := Phase.accepting.inj hphase
      obtain ⟨hlt, hreported⟩ := hreported _ _ _ rfl k (List.mem_cons_of_mem _ hk)
      refine ⟨hlt, fun hready => hreported ?_⟩
      rwa [hserved.listening hpaired hlt] at hready
  | shuffle s now load choices =>
    refine ⟨hpolls, fun i hi => ?_, fun _ _ _ hphase => by cases hphase⟩
    rw [length_clientsShuffle] at hi
    obtain ⟨shuffleIndex, -, hclient⟩ := client_clientsShuffle choices hi
    rw [hclient]
    exact hclients i hi
  | @visit s t now remaining remaining' place rest answers fuel returns =>
    -- a visit leaves the sockets as they are, and the client its number
    have hvisited := (serverProcessClient_visited (hplaces _ List.mem_cons_self) _ _ _ _).of_eq_ok returns
    refine ⟨fun k hk => ?_, fun i hi => ?_, fun _ _ _ hphase => by cases hphase⟩
    · dsimp only
      rw [hvisited.otherPolls k (by omega)]
      exact hpolls k hk
    · have hsocket : (t.client i).acceptingSocket = (s.client i).acceptingSocket := by
        by_cases hi : i = s.visited place
        · rw [hi]
          exact hvisited.self.acceptingSocket
        · obtain ⟨stream, hstream⟩ := hvisited.others i hi
          rw [hstream]
      dsimp only at hi ⊢
      rw [hvisited.length] at hi
      rw [hsocket]
      exact hclients i hi
  | remove s now remaining =>
    -- those who are kept are among those who were there, and the sockets stand in front
    have hcompacted := clientsRemoveFinalized_compacted hpaired
    dsimp only at hpolls hsize hclients
    refine ⟨fun k hk => ?_, Server.all_iff.mpr fun client hclient => ?_, fun _ _ _ hphase => by cases hphase⟩
    · have hlength : k < (s.polls.elements.take acceptingSockets).length := by
        rw [List.length_take]
        omega
      have hsame : (clientsRemoveFinalized s).poll k = s.poll k := by
        rw [Server.poll, hcompacted.polls, List.getD_append _ _ _ _ hlength, Server.poll,
          List.getD_eq_getElem?_getD, List.getElem?_take_of_lt hk, ← List.getD_eq_getElem?_getD]
      dsimp only
      rw [hsame]
      exact hpolls k hk
    · dsimp only at hclient
      rw [hcompacted.clients] at hclient
      exact Server.all_iff.mp hclients client (List.mem_filter.mp hclient).1

/-- In every run the listening sockets are those it began with, and the clients came through them. -/
theorem serverRun_listens {polls : Buffer Poll} (hpolls : polls.elements.length = acceptingSockets)
    {inputs : List ServerInput} {state : Phase × Server}
    (hrun : Runs (StepsWhere IgnoresUnused ServerStep) (startState polls) inputs state) :
    Listens (fun k => (polls.elements.getD k .zero).fd) state := by
  have hstart : Listens (fun k => (polls.elements.getD k .zero).fd) (startState polls) :=
    ⟨fun _ _ => rfl, fun i hi => absurd hi (Nat.not_lt_zero i), fun _ _ _ hphase => by cases hphase⟩
  exact (serverRun_invariant hpolls hstart (fun _ _ _ htabled hs hunused h => h.listens htabled hs hunused)
    hrun).2

/-- From a start on, whatever the server does, the listening sockets stay where they are, and every client is
served by the protocol whose port it has connected to. -/
theorem serverRun_ports {release : Bool} {ignored : Except String Unit} {answers : ℕ → PairAnswers}
    {start : Startup} (hstart : serverInitialize release ignored answers .zero = .ok () start)
    {inputs : List ServerInput} {state : Phase × Server}
    (hrun : Runs (StepsWhere IgnoresUnused ServerStep) (startState start.polls) inputs state) :
    (∀ k < acceptingSockets, (state.2.poll k).fd = (start.polls.elements.getD k .zero).fd) ∧
      ∀ client ∈ state.2.clients.elements, client.acceptingSocket < acceptingSockets ∧
        ∃ fd ipv6, (state.2.poll client.acceptingSocket).fd = some fd ∧
          ⟨fd, (acceptingSocketProtocol client.acceptingSocket).port release, ipv6⟩ ∈ start.opened := by
  have hlists := (serverInitialize_lists release ignored answers).of_eq_ok hstart
  have hlistens := serverRun_listens hlists.length hrun
  refine ⟨hlistens.polls, fun client hclient => ?_⟩
  obtain ⟨hsocket, hsome⟩ := Server.all_iff.mp hlistens.clients client hclient
  obtain ⟨fd, hfd⟩ := Option.isSome_iff_exists.mp hsome
  obtain ⟨ipv6, hopened⟩ := hlists.port_acceptingSocket _ hsocket fd hfd
  exact ⟨hsocket, fd, ipv6, (hlistens.polls _ hsocket).trans hfd, hopened⟩

/-- All calls succeed, and the sockets of a protocol have the next two descriptors. -/
def grantedAnswers (k : ℕ) : PairAnswers :=
  ⟨fun _ => ⟨⟨some (3 + 2 * k), true, true, true, true, true, true⟩,
    ⟨some (4 + 2 * k), true, true, true, true, true, true⟩, some 1, some 1⟩, fun _ => some 1⟩

/-- What a start leaves if nothing fails. -/
def grantedStart : Startup where
  polls := ⟨1, (List.range 18).map fun k => listeningPoll (some (3 + k)), 32⟩
  opened := (List.range 18).map fun k => ⟨3 + k, (acceptingSocketProtocol k).port true, k % 2 = 1⟩
  closed := []

/-- A client connects to port 80, and is served in HTTP. -/
theorem serverRun_ports_accepted : ∃ inputs rest s,
    serverInitialize true (.ok ()) grantedAnswers .zero = .ok () grantedStart ∧
    Runs (StepsWhere IgnoresUnused ServerStep) (startState grantedStart.polls) inputs
      (.accepting 0 ⟨false, false, false⟩ rest, s) ∧
    s.clients.elements.length = 1 ∧
    ∀ client ∈ s.clients.elements, client.acceptingSocket < acceptingSockets ∧
      ∃ fd ipv6, (s.poll client.acceptingSocket).fd = some fd ∧
        ⟨fd, (acceptingSocketProtocol client.acceptingSocket).port true, ipv6⟩ ∈ grantedStart.opened := by
  have hstart : serverInitialize true (.ok ()) grantedAnswers .zero = .ok () grantedStart := by rfl
  have hpaired : (Server.initial grantedStart.polls).Paired := Server.initial_paired rfl
  have hempty : Crowd 0 (Server.initial grantedStart.polls) :=
    ⟨rfl, fun i hi => absurd hi (Nat.not_lt_zero i), rfl⟩
  obtain ⟨hpoll, hcrowd, hready⟩ := hempty.poll hpaired (by decide) intMax 1
  have hpaired₁ := pollAll_paired (readySockets 1) hpaired
  have hrange : List.range acceptingSockets = 0 :: (List.range 17).map (· + 1) := rfl
  rw [hrange] at hpoll
  obtain ⟨t, haccept, hcrowd₂, -, -⟩ := hcrowd.accept (Calm.pollAll _ 1) hpaired₁.size (by decide)
    (by decide) (hready 0 (by decide))
  have hunused : IgnoresUnused (startState grantedStart.polls) (.poll (readySockets 1) 0 false false) := by
    intro k hnone
    rcases k with _ | k
    · cases hnone
    · rfl
  have hrun : Runs (StepsWhere IgnoresUnused ServerStep) (startState grantedStart.polls)
      [_, .accept acceptedAnswers] (.accepting 0 ⟨false, false, false⟩ ((List.range 17).map (· + 1)), t) :=
    .cons ⟨hunused, hpoll⟩ (.cons ⟨trivial, .accept haccept⟩ (.nil _))
  exact ⟨_, _, t, hstart, hrun, hcrowd₂.length, (serverRun_ports hstart hrun).2⟩

end Twinkleshine
