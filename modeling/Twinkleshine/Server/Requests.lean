import Twinkleshine.Server.Intake
import Twinkleshine.Server.Limit
import Twinkleshine.Server.ShortStream

/-!
# Request streams in every run

`serverRun_clients` is the rule for what holds of every client in every run: it holds of a client that is
made at a listening socket, does not depend on the shuffle, and is kept by visits. The bound on the
request stream is such a property: of a connection always, and of a Guppy client as long as every datagram
that is taken fits, since `server_receive_data_guppy` asks for no room.
-/

namespace Twinkleshine

open Library

/-! ## What holds of every client -/

/-- The client was made at a listening socket, and was not visited yet. -/
inductive Client.Made (client : Client) : Prop where
  | connection {index birth : ℕ} {address : Address} {now : ℤ} {answers : InitializeAnswers}
      (isConnection : acceptingSocketIsConnection index = true)
      (returns : initializeClient index answers (newClient index address now birth) = .ok () client)
  | message {index birth : ℕ} {address : Address} {now : ℤ}
      (isMessage : acceptingSocketIsConnection index = false)
      (eq : client = newMessageClient index address now birth)

/-- All clients of the table have this property. -/
def Server.All (P : Client → Prop) (s : Server) : Prop := ∀ i < s.clients.elements.length, P (s.client i)

section

variable {P : Client → Prop} {s t : Server}

theorem Server.All.congr (h : s.All P) (hclients : t.clients.elements = s.clients.elements) : t.All P := by
  intro i hi
  rw [hclients] at hi
  have hsame : t.client i = s.client i := by rw [Server.client, Server.client, hclients]
  rw [hsame]
  exact h i hi

theorem Server.all_iff : s.All P ↔ ∀ client ∈ s.clients.elements, P client := by
  constructor
  · intro h client hclient
    obtain ⟨i, hi, rfl⟩ := List.getElem_of_mem hclient
    have hget := h i hi
    rwa [Server.client, List.getD_eq_getElem _ _ hi] at hget
  · intro h i hi
    rw [Server.client, List.getD_eq_getElem _ _ hi]
    exact h _ (List.getElem_mem hi)

/-- A client that is admitted has been made. -/
theorem Server.All.admitted {client : Client} {poll : Poll} (h : s.All P)
    (hadmitted : Admitted s t client poll) (hclient : P client) : t.All P := by
  refine Server.all_iff.mpr fun d hd => ?_
  rw [hadmitted.clients] at hd
  rcases List.mem_append.mp hd with hd | hd
  · exact Server.all_iff.mp h d hd
  · rw [List.mem_singleton.mp hd]
    exact hclient

theorem SocketServed.all {index : ℕ} {load : ServerLoad} {now : ℤ} {answers : SocketAnswers}
    (hserved : SocketServed index load now answers s t) (hmade : ∀ client, client.Made → P client)
    (h : s.All P) : t.All P := by
  rcases hserved with ⟨rfl, -⟩ | ⟨hasked, served⟩ | ⟨-, hmessage, -, served⟩
  · exact h
  · have hconnection := (Server.acceptsAt_iff.mp hasked).2.2
    rcases served with ⟨-, same⟩ | ⟨-, -, same⟩ | ⟨-, -, -, -, same⟩ | ⟨-, -, -, made, admitted, -⟩
    · exact h.congr same.clients
    · exact h.congr same.clients
    · exact h.congr same.clients
    · exact h.admitted admitted (hmade _ (.connection hconnection made))
  · rcases served with ⟨rfl⟩ | ⟨same⟩ | ⟨-, -, same, -⟩ | ⟨-, -, -, -, admitted, -⟩
    · exact h
    · exact h.congr same.clients
    · exact h.congr (congrArg Buffer.elements same.clients)
    · exact h.admitted admitted (hmade _ (.message hmessage rfl))

/-- What visits keep of all clients, while a condition is met and the short response stream is sound, holds
of every client in every run that meets it, if it holds of clients that are made and does not depend on the
shuffle. -/
theorem serverRun_clients {condition : Phase × Server → ServerInput → Prop} {polls : Buffer Poll}
    (hpolls : polls.elements.length = acceptingSockets) (hmade : ∀ client, client.Made → P client)
    (hshuffled : ∀ client k, P client → P { client with shuffleIndex := k })
    (hvisit : ∀ now remaining place rest s answers fuel,
      s.visited place < s.clients.elements.length →
      condition (.visiting now remaining (place :: rest), s) (.visit answers fuel) →
      s.ShortSound → s.All P →
      (serverProcessClient (s.visited place) now remaining answers fuel s).Yields fun _ t => t.All P)
    {inputs : List ServerInput} {state : Phase × Server}
    (hrun : Runs (StepsWhere condition ServerStep) (startState polls) inputs state) :
    Tabled state ∧ state.2.ShortSound ∧ state.2.All P := by
  refine serverRun_invariant hpolls (P := fun state => state.2.ShortSound ∧ state.2.All P) ?_ ?_ hrun
  · exact ⟨startState_shortSound polls, fun i hi => absurd hi (Nat.not_lt_zero i)⟩
  · intro state input state' htabled hs hcondition hstep
    refine ⟨hstep.shortSound htabled hs.1, ?_⟩
    obtain ⟨hshort, h⟩ := hs
    cases hstep with
    | poll => exact h
    | accept returns =>
      exact ((serverAcceptSocket_cases htabled.paired.size _ _ _ _).of_eq_ok returns).all hmade h
    | shuffle s now load choices =>
      intro i hi
      rw [length_clientsShuffle] at hi
      obtain ⟨shuffleIndex, -, hclient⟩ := client_clientsShuffle choices hi
      rw [hclient]
      exact hshuffled _ _ (h i hi)
    | visit returns =>
      exact (hvisit _ _ _ _ _ _ _ (htabled.places _ List.mem_cons_self) hcondition hshort h).of_eq_ok returns
    | remove s =>
      refine Server.all_iff.mpr fun client hclient => ?_
      rw [(clientsRemoveFinalized_compacted htabled.paired).clients] at hclient
      exact Server.all_iff.mp h client (List.mem_filter.mp hclient).1

end

/-! ## The bound -/

variable {i : ℕ} {s t : Server}

/-- A client that is made has nothing in its request stream, and talks through OpenSSL if it is
encrypted. -/
theorem Client.Made.bounded {client : Client} (h : client.Made) (hplain : client.encrypted = false) :
    client.Bounded 0 := by
  have hempty : Ring.zero.size = 0 := rfl
  rcases h with ⟨-, hreturns⟩ | ⟨-, rfl⟩
  · have hsocket := (initializeClient_identity hreturns).acceptingSocket
    unfold initializeClient at hreturns
    rw [Client.encrypted, hsocket] at hplain
    rw [if_neg (by rw [← Bool.not_eq_true] at hplain; exact hplain)] at hreturns
    obtain ⟨-, rfl⟩ := Outcome.ok.inj hreturns
    exact ⟨rfl, Ring.zero_valid, hempty.le⟩
  · exact ⟨rfl, Ring.zero_valid, hempty.le⟩

/-- The datagram that the visited client takes fits into its request stream, if it is a request. -/
def DatagramsFit : Phase × Server → ServerInput → Prop
  | (.visiting _ _ (place :: _), s), .visit _ _ =>
    acceptingSocketIsMessage (s.client (s.visited place)).acceptingSocket = true →
      s.MessageFits (s.visited place)
  | _, _ => True

/-- A visit of a client with room keeps everybody within the bound. -/
theorem serverProcessClient_all {Q : ℕ → Prop} (hi : i < s.clients.elements.length)
    (h : s.All fun client => client.encrypted = false → Q client.acceptingSocket →
      client.Bounded maxRequestStreamSize)
    (hfits : Q (s.client i).acceptingSocket → acceptingSocketIsMessage (s.client i).acceptingSocket = true →
      s.MessageFits i) (now remaining : ℤ) (answers : VisitAnswers) (fuel : ℕ) :
    (serverProcessClient i now remaining answers fuel s).Yields fun _ t => t.All fun client =>
      client.encrypted = false → Q client.acceptingSocket → client.Bounded maxRequestStreamSize := by
  have hothers : ∀ t, Visited i s t → ∀ j < t.clients.elements.length, j ≠ i →
      (t.client j).encrypted = false → Q (t.client j).acceptingSocket →
        (t.client j).Bounded maxRequestStreamSize := by
    intro t ht j hj hne hplain hsocket
    obtain ⟨stream, hstream⟩ := ht.others j hne
    rw [hstream] at hplain hsocket ⊢
    obtain ⟨hssl, hvalid, hle⟩ := h j (ht.length ▸ hj) hplain hsocket
    exact ⟨hssl, hvalid, hle⟩
  have hvisited := serverProcessClient_visited hi now remaining answers fuel
  by_cases hself : (s.client i).encrypted = false ∧ Q (s.client i).acceptingSocket
  · obtain ⟨hplain, hsocket⟩ := hself
    have hroom : s.HasRoom i := ⟨hi, h i hi hplain hsocket, hfits hsocket⟩
    refine (hvisited.and (serverProcessClient_bounded hroom now remaining answers fuel)).mono ?_
      fun _ _ _ => trivial
    rintro _ t ⟨ht, hbounded⟩ j hj hplain' hsocket'
    by_cases hji : j = i
    · rw [hji]
      exact hbounded
    · exact hothers t ht j hj hji hplain' hsocket'
  · refine Outcome.Meets.mono hvisited (fun _ t ht j hj hplain' hsocket' => ?_) fun _ _ _ => trivial
    by_cases hji : j = i
    · have hsocket := ht.self.acceptingSocket
      rw [hji, Client.encrypted, hsocket] at hplain'
      rw [hji, hsocket] at hsocket'
      exact absurd ⟨hplain', hsocket'⟩ hself
    · exact hothers t ht j hj hji hplain' hsocket'

/-- At the beginning of every round there is room, if there was when the visit began. -/
theorem LoopReaches.hasRoom {now : ℤ} {answers : VisitAnswers} {k l : ℕ} {v w : Visit}
    (h : LoopReaches i now answers k v l w) (hv : v.server.HasRoom i) : w.server.HasRoom i :=
  h.invariant hv fun _ u hu => (serverProcessClientRound_hasRoom (v := { u with doneSomething := false })
    hu now _).mono (fun _ _ hw => hw) fun _ _ _ => trivial

/-- In every run a connection that is not encrypted has at most `MAX_REQUEST_STREAM_SIZE` bytes in its
request stream, also at the beginning of every round of a visit. -/
theorem serverRun_requestStream_le {polls : Buffer Poll} (hpolls : polls.elements.length = acceptingSockets)
    {inputs : List ServerInput} {phase : Phase} (hrun : Runs ServerStep (startState polls) inputs (phase, s))
    (hi : i < s.clients.elements.length) (hplain : (s.client i).encrypted = false)
    (hconnection : acceptingSocketIsConnection (s.client i).acceptingSocket = true) :
    (s.client i).requestStream.size ≤ maxRequestStreamSize ∧
      ∀ now answers k w, LoopReaches i now answers 0 (startVisit i s) k w →
        (w.server.client i).requestStream.size ≤ maxRequestStreamSize := by
  have hmessage : ∀ index, acceptingSocketIsConnection index = true →
      acceptingSocketIsMessage index ≠ true := by
    intro index hindex hother
    simp only [acceptingSocketIsMessage, acceptingSocketIsConnection, decide_eq_true_eq] at hindex hother
    omega
  have hrun' : Runs (StepsWhere (fun _ _ => True) ServerStep) (startState polls) inputs (phase, s) :=
    hrun.mono fun _ _ _ hstep => ⟨trivial, hstep⟩
  have hall := (serverRun_clients (P := fun client =>
      client.encrypted = false → acceptingSocketIsConnection client.acceptingSocket = true →
        client.Bounded maxRequestStreamSize) hpolls
    (fun _ hmade hplain _ => (hmade.bounded hplain).mono (Nat.zero_le _))
    (fun _ _ h hplain hsocket => ⟨(h hplain hsocket).ssl, (h hplain hsocket).valid,
      (h hplain hsocket).size_le⟩)
    (fun now remaining _ _ _ answers fuel hlt _ _ h => serverProcessClient_all
      (Q := fun index => acceptingSocketIsConnection index = true) hlt h
      (fun hsocket hother => absurd hother (hmessage _ hsocket)) now remaining answers fuel)
    hrun').2.2
  have hbounded := hall i hi hplain hconnection
  refine ⟨hbounded.size_le, fun now answers k w hreaches => ?_⟩
  have hroom : s.HasRoom i := ⟨hi, hbounded, fun hother => absurd hother (hmessage _ hconnection)⟩
  exact (hreaches.hasRoom (v := startVisit i s) hroom).bounded.size_le

/-- The beginning of a request is received, and nothing after it. -/
def beginningVisit : VisitAnswers where
  rounds
    | 0 => { quietRound with
      receive := { quietRound.receive with stream := ⟨grantAll, .data 71 (ascii "ET /"), .wouldBlock⟩ } }
    | _ => quietRound
  taken := 0

/-- A pass in which a connection is accepted, and the beginning of a request comes from it. -/
theorem serverRun_requestStream_le_beginning : ∃ inputs phase s,
    Runs ServerStep (startState listening) inputs (phase, s) ∧ s.clients.elements.length = 1 ∧
    (s.client 0).requestStream.size = 5 ∧
    ((s.client 0).requestStream.size ≤ maxRequestStreamSize ∧
      ∀ now answers k w, LoopReaches 0 now answers 0 (startVisit 0 s) k w →
        (w.server.client 0).requestStream.size ≤ maxRequestStreamSize) := by
  have hpass : (serverProcessClients ⟨readySockets 1, 0, false, false, fun _ => acceptedAnswers, id,
      fun _ => beginningVisit, 5⟩ (.initial listening)).returnsIn (fun s => s.clients.elements.length = 1 ∧
        (s.client 0).requestStream.size = 5 ∧ (s.client 0).encrypted = false ∧
        acceptingSocketIsConnection (s.client 0).acceptingSocket = true) = true := by decide +kernel
  obtain ⟨remaining, s, hreturns, hcheck⟩ := Outcome.exists_of_returnsIn hpass
  obtain ⟨hlength, hsize, hplain, hconnection⟩ := of_decide_eq_true hcheck
  obtain ⟨inputs, hrun⟩ := serverProcessClients_runs hreturns intMax
  exact ⟨inputs, _, s, hrun, hlength, hsize, serverRun_requestStream_le rfl hrun (by rw [hlength]; decide)
    hplain hconnection⟩

/-- In every run in which the datagrams fit, nobody who is not encrypted has more than
`MAX_REQUEST_STREAM_SIZE` bytes in the request stream. -/
theorem serverRun_requestStream_le_of_fits {polls : Buffer Poll}
    (hpolls : polls.elements.length = acceptingSockets) {inputs : List ServerInput} {phase : Phase}
    (hrun : Runs (StepsWhere DatagramsFit ServerStep) (startState polls) inputs (phase, s))
    (hi : i < s.clients.elements.length) (hplain : (s.client i).encrypted = false) :
    (s.client i).requestStream.size ≤ maxRequestStreamSize := by
  have hall := (serverRun_clients (P := fun client =>
      client.encrypted = false → True → client.Bounded maxRequestStreamSize) hpolls
    (fun _ hmade hplain _ => (hmade.bounded hplain).mono (Nat.zero_le _))
    (fun _ _ h hplain _ => ⟨(h hplain trivial).ssl, (h hplain trivial).valid, (h hplain trivial).size_le⟩)
    (fun now remaining _ _ _ answers fuel hlt hfits _ h => serverProcessClient_all
      (Q := fun _ => True) hlt h (fun _ => hfits) now remaining answers fuel) hrun).2.2
  exact (hall i hi hplain trivial).size_le

/-- The beginning of a request is received, and fits. -/
theorem serverRun_requestStream_le_of_fits_datagram : ∃ inputs remaining t,
    Runs (StepsWhere DatagramsFit ServerStep) (startState listening) inputs (.visiting 0 remaining [], t) ∧
    (t.client 0).requestStream.size = 8 ∧ (t.client 0).requestStream.size ≤ maxRequestStreamSize := by
  set answers := datagramPass 2 (ascii "guppy://")
  set s₁ := pollAll datagramReady (.initial listening)
  have hrun : (acceptSockets ⟨false, false, false⟩ 0 answers.sockets (List.range acceptingSockets)
      s₁).returnsIn (fun s₂ =>
        let s := clientsShuffle id s₂
        s₂.clients.elements.length = 1 ∧ s.visited 0 = 0 ∧
          (s.client 0).requestStream.size + s.shortRequestMessageSize ≤ maxRequestStreamSize ∧
          (serverProcessClient 0 0 intMax quietVisit 5 s).returnsIn (fun t =>
            t.clients.elements.length = 1 ∧ (t.client 0).encrypted = false ∧
              (t.client 0).requestStream.size = 8) = true) = true := by
    decide +kernel
  obtain ⟨_, s₂, haccept, hcheck⟩ := Outcome.exists_of_returnsIn hrun
  obtain ⟨hlength, hplace, hfits, hvisit⟩ := of_decide_eq_true hcheck
  set s := clientsShuffle id s₂
  obtain ⟨remaining, t, hreturns, hdone⟩ := Outcome.exists_of_returnsIn hvisit
  obtain ⟨hlength', hplain, hsize⟩ := of_decide_eq_true hdone
  obtain ⟨accepts, hrun₁⟩ := acceptSockets_runs DatagramsFit (fun rest s input => by cases input <;> trivial)
    haccept
  have hshuffle : ServerStep (.accepting 0 ⟨false, false, false⟩ [], s₂) (.shuffle id)
      (.visiting 0 intMax [0], s) := by
    have hstep := ServerStep.shuffle s₂ 0 ⟨false, false, false⟩ id
    rwa [hlength] at hstep
  have hsteps : Runs (StepsWhere DatagramsFit ServerStep) (startState listening)
      (.poll datagramReady 0 false false :: (accepts ++ [.shuffle id, .visit quietVisit 5]))
      (.visiting 0 remaining [], t) := by
    refine .cons ⟨trivial, .poll (.initial listening) intMax datagramReady 0 false false⟩
      (hrun₁.append (.cons ⟨trivial, hshuffle⟩ (.cons ⟨fun _ => ?_, .visit ?_⟩ (.nil _))))
    · rw [hplace]
      exact fun _ _ => hfits
    · rw [hplace]
      exact hreturns
  exact ⟨_, _, t, hsteps, hsize, serverRun_requestStream_le_of_fits rfl hsteps
    (by rw [hlength']; decide) hplain⟩

end Twinkleshine
