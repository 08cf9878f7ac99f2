import Twinkleshine.Server.Failures
import Twinkleshine.Server.Pass
import Twinkleshine.Server.Sending
import Twinkleshine.Server.Streams

/-!
# Serving any number of clients

The clients that are connected without encryption are received from, answered and sent to in any order.
`Books` is what holds of each of them in between, whatever happens to the others: the bytes it was sent,
followed by those it has pending, are the responses that were generated for it, and its response queue
is in step with them. Reference: `server_receive_traffic`, `server_process_traffic`,
`server_send_traffic`.
-/

namespace Twinkleshine

open Library

/-! ## The books of a client -/

/-- Client `i` is connected without encryption and can be served, and its books are right. -/
structure Server.Books (s : Server) (i : ℕ) : Prop where
  live : (s.client i).dead = false
  plaintext : (s.client i).encrypted = false
  connection : acceptingSocketIsConnection (s.client i).acceptingSocket = true
  plain : (s.client i).Plain
  bounded : (s.client i).requestStream.size ≤ maxRequestStreamSize
  ledger : Ledger (s.client i) (s.pending i) (history (s.client i).birth s.effects)

/-- Client `i` was served: the others are spared, and its books are right again. -/
structure Served (i : ℕ) (s t : Server) : Prop where
  spares : Spares i s t
  owner : t.OwnerInv
  books : t.Books i

section

variable {i : ℕ} {s t : Server}

theorem Server.Books.with {c : Client} (hi : i < s.clients.elements.length) (h : s.Books i)
    (hidentity : (s.client i).SameIdentity c) (hbooks : SameBooks (s.client i) c)
    (hstream : c.responseStream = (s.client i).responseStream) (hplain : c.Plain)
    (hbounded : c.requestStream.size ≤ maxRequestStreamSize) :
    (s.setClient i c).Books i := by
  have hclient := Server.client_setClient hi c
  have hpending : (s.setClient i c).pending i = s.pending i := by
    rw [Server.pending, Server.pending, hclient, hstream]
    rfl
  refine ⟨?_, ?_, ?_, ?_, ?_, ?_⟩
  · rw [hclient, hidentity.dead, h.live]
  · rw [hclient, hidentity.encrypted_eq, h.plaintext]
  · rw [hclient, hidentity.acceptingSocket]
    exact h.connection
  · rw [hclient]
    exact hplain
  · rw [hclient]
    exact hbounded
  · rw [hpending, hclient, hidentity.birth]
    exact h.ledger.congr hbooks hidentity.acceptingSocket

/-- Serving client `i` failed: the others are spared, and what the client was sent is from the front of
its responses. When the error is one to send a fixed response for, the books are still right. -/
structure ServingFailed (i : ℕ) (s t : Server) (e : ExError) : Prop where
  spares : Spares i s t
  owner : t.OwnerInv
  front : SentFromFront (s.client i).birth t.effects
  ledger : e.has partialEefSend = true →
    Ledger (t.client i) (t.pending i) (history (s.client i).birth t.effects)

/-- A failure that left the output as it was. -/
theorem ServingFailed.of_sameOutput {e : ExError} (hi : i < s.clients.elements.length)
    (howner : s.OwnerInv) (hbooks : s.Books i) {client : Client}
    (hidentity : (s.client i).SameIdentity client) (hsame : SameBooks (s.client i) client)
    (hstream : client.responseStream = (s.client i).responseStream) :
    ServingFailed i s (s.setClient i client) e := by
  have houtput : SameOutput s (s.setClient i client) := .setClient hi hidentity hstream s.effects
  have hclient := Server.client_setClient hi client
  refine ⟨.setClient hi hidentity, houtput.ownerInv howner,
    hbooks.ledger.sentFromFront hbooks.connection, fun _ => ?_⟩
  rw [hclient, houtput.pending]
  exact hbooks.ledger.congr hsame hidentity.acceptingSocket

/-! ## Receiving -/

theorem not_message_of_connection {acceptingSocket : ℕ}
    (h : acceptingSocketIsConnection acceptingSocket = true) :
    ¬ acceptingSocketIsMessage acceptingSocket = true := by
  simp only [acceptingSocketIsConnection, acceptingSocketIsMessage, decide_eq_true_eq] at h ⊢
  omega

/-- A stream is never asked to receive more than it has room for. -/
theorem availableSize_le (available : ℕ) {size : ℕ} (h : size ≤ maxRequestStreamSize) :
    size + availableSize available size ≤ maxRequestStreamSize := by
  rw [availableSize, sizeSub_eq h (by decide)]
  split_ifs <;> omega

/-- More bytes in the request stream do no harm. -/
theorem Client.Plain.received {client : Client} (h : client.Plain) {stream : Ring} (hvalid : stream.Valid)
    (hsize : client.requestStream.size ≤ stream.size) (now : ℤ) :
    (({ client with requestStream := stream } : Client).noteNotEmpty now).Plain := by
  have hparse : client.progress.parser.state ≠ .end →
      ParseInv client.acceptingSocket stream.size client.progress := fun hstate =>
    (h.parse hstate).mono hsize
  rw [Client.noteNotEmpty]
  split_ifs
  · exact ⟨h.operational, h.ssl, hvalid, hparse, h.stream⟩
  · exact ⟨h.operational, h.ssl, hvalid, hparse, h.stream⟩

/-- What `server_receive_traffic` does for a connection that is not encrypted: it puts bytes behind those
in the request stream, as many as there is room for, or fails. -/
theorem serverReceiveTraffic_meets {v : Visit} (hi : i < v.server.clients.elements.length)
    (hconnection : acceptingSocketIsConnection (v.server.client i).acceptingSocket = true)
    (hssl : (v.server.client i).ssl = false) (hvalid : (v.server.client i).requestStream.Valid)
    (hbounded : (v.server.client i).requestStream.size ≤ maxRequestStreamSize) (now : ℤ)
    (answers : ReceiveTrafficAnswers) :
    (serverReceiveTraffic i now answers v).Ensures
      (fun _ w => ∃ available r bytes,
        StreamReceived (availableSize available (v.server.client i).requestStream.size) v.flags
          (v.server.client i).requestStream bytes r ∧
        w = { v with
          server := v.server.setClient i
            (({ v.server.client i with requestStream := r.1 } : Client).noteNotEmpty now)
          flags := r.2 })
      fun e w => (∃ stream, w.server
          = v.server.setClient i { v.server.client i with requestStream := stream }) ∧
        e.has partialEefDie = false := by
  -- the checks in front of the read leave the client as it is
  have hrefl : ∀ e : ExError, e.has partialEefDie = false →
      (∃ stream, v.server = v.server.setClient i { v.server.client i with requestStream := stream }) ∧
        e.has partialEefDie = false := fun e he =>
    ⟨⟨(v.server.client i).requestStream, (v.server.setClient_client i).symm⟩, he⟩
  unfold serverReceiveTraffic
  rw [if_neg (not_message_of_connection hconnection)]
  rcases answers.available with errno | signedAvailable
  · exact hrefl _ (ExError.not_has_die rfl)
  dsimp only
  by_cases hnegative : signedAvailable < 0
  · rw [if_pos hnegative]
    exact hrefl _ (ExError.not_has_die rfl)
  rw [if_neg hnegative]
  by_cases hmuch : ¬ signedAvailable.toNat ≤ maxAvailableRequestStream
  · rw [if_pos hmuch]
    exact hrefl _ (not_has_die_of_fixed rfl)
  rw [if_neg hmuch]
  -- no more is read than fits
  have hroom := availableSize_le signedAvailable.toNat hbounded
  have hmax : maxRequestStreamSize ≤ 2 ^ 63 := by decide
  unfold receiveData
  refine Outcome.meets_false.mp ((((serverReceiveStream_meets hvalid (hroom.trans hmax)
    answers.stream v.flags).mapState _).andThen (fun _ w hw => ?_) fun e w hw => ?_))
  · obtain ⟨⟨stream, flags⟩, rfl, bytes, hreceived⟩ := hw
    dsimp only
    rw [Server.client_setClient hi, Server.setClient_setClient]
    -- a time is noted, and nothing is decrypted
    have hnoted : (({ v.server.client i with requestStream := stream } : Client).noteNotEmpty now).ssl
        = false := by
      rw [Client.noteNotEmpty]
      split_ifs
      · exact hssl
      · exact hssl
    rw [if_neg (by rw [hnoted]; exact Bool.false_ne_true)]
    exact ⟨signedAvailable.toNat, (stream, flags), bytes, hreceived, rfl⟩
  · obtain ⟨⟨stream, flags⟩, rfl, he⟩ := hw
    exact ⟨⟨stream, rfl⟩, ExError.not_has_die he⟩

/-- Noting the time changes nothing else. -/
theorem Client.noteNotEmpty_eq (now : ℤ) (client : Client) :
    client.noteNotEmpty now = { client with
      lastRequestStreamNotEmpty := if client.requestStream.size > 0 then now
        else client.lastRequestStreamNotEmpty } := by
  rw [Client.noteNotEmpty]
  split_ifs <;> rfl

/-- The short response stream of client `i` belongs to a response in its queue. -/
def Server.Queued (s : Server) (i : ℕ) : Prop := s.owns i = true → 0 < (s.client i).responseCount

/-- A client in whose output nothing changed. -/
theorem Server.Queued.setClient (h : s.Queued i) (hi : i < s.clients.elements.length) {client : Client}
    (hcount : client.responseCount = (s.client i).responseCount) : (s.setClient i client).Queued i := by
  intro howns
  rw [Server.client_setClient hi, hcount]
  exact h howns

/-- `server_receive_traffic` keeps the books of a client right, or fails. -/
theorem serverReceiveTraffic_ensures {v : Visit} (hi : i < v.server.clients.elements.length)
    (howner : v.server.OwnerInv) (hbooks : v.server.Books i) (now : ℤ)
    (answers : ReceiveTrafficAnswers) :
    (serverReceiveTraffic i now answers v).Ensures
      (fun _ w => Served i v.server w.server ∧ (v.server.Queued i → w.server.Queued i))
      fun e w => ServingFailed i v.server w.server e ∧ e.has partialEefDie = false ∧
        (w.server.client i).ssl = false := by
  have hplain := hbooks.plain
  refine (serverReceiveTraffic_meets hi hbooks.connection hplain.ssl hplain.requests hbooks.bounded now
    answers).mono (fun _ w hw => ?_) fun e w hw => ?_
  · obtain ⟨available, ⟨stream, flags⟩, bytes, hreceived, rfl⟩ := hw
    have hroom := availableSize_le available hbooks.bounded
    have hgrown := hreceived.grown
    have hlength := hreceived.length_le
    dsimp only at hgrown hlength ⊢
    set client := v.server.client i with hclient
    set received := (({ client with requestStream := stream } : Client).noteNotEmpty now) with hnoted
    have hnote : received = { client with
        requestStream := stream
        lastRequestStreamNotEmpty := if stream.size > 0 then now
          else client.lastRequestStreamNotEmpty } := Client.noteNotEmpty_eq now _
    -- what was received joins the request stream, and is in no book
    have hidentity : client.SameIdentity received := hnote ▸ ⟨rfl, rfl, rfl, rfl, rfl⟩
    have hstream : received.responseStream = client.responseStream := hnote ▸ rfl
    have houtput : SameOutput v.server (v.server.setClient i received) :=
      .setClient hi hidentity hstream v.server.effects
    refine ⟨⟨.setClient hi hidentity, houtput.ownerInv howner, hbooks.with hi hidentity ?_ hstream
      (hplain.received hreceived.valid (by rw [hgrown]; exact Nat.le_add_right _ _) now) ?_⟩,
      fun hqueued => hqueued.setClient hi (hnote ▸ rfl)⟩
    · rw [hnote]
      exact ⟨rfl, rfl, rfl⟩
    · rw [hnote]
      show stream.size ≤ _
      omega
  · obtain ⟨⟨stream, hserver⟩, he⟩ := hw
    rw [hserver]
    refine ⟨.of_sameOutput hi howner hbooks ⟨rfl, rfl, rfl, rfl, rfl⟩ ⟨rfl, rfl, rfl⟩ rfl, he, ?_⟩
    rw [Server.client_setClient hi]
    exact hplain.ssl

/-! ## Processing -/

/-- Generating more does not put anything before what was sent. -/
theorem SentFromFront.generate {birth : ℕ} {effects more : List Effect}
    (h : SentFromFront birth effects) (hmore : more = [] ∨ ∃ response : Generated, more =
      [.generated birth response.method response.resource response.text]) :
    SentFromFront birth (effects ++ more) := by
  rcases hmore with rfl | ⟨response, rfl⟩
  · rwa [List.append_nil]
  · have hnothing : sentIn (history birth
        [.generated birth response.method response.resource response.text]) = [] := by
      rw [history_of_own fun effect heffect => List.mem_singleton.mp heffect ▸ rfl]
      rfl
    rw [SentFromFront, history_append, sentIn_append, generatedIn_append, texts_append, hnothing,
      List.append_nil]
    exact h.trans (List.prefix_append _ _)

/-- `server_process_traffic` answers a request when it is complete, or fails. -/
theorem serverProcessTraffic_meets (hi : i < s.clients.elements.length) (howner : s.OwnerInv)
    (hbooks : s.Books i) (hstate : (s.client i).progress.parser.state ≠ .end) (now : ℤ)
    (answers : ProcessAnswers) :
    (serverProcessTraffic i now answers s).Meets True
      (fun _ t => Served i s t ∧ (s.Queued i → t.Queued i))
      fun e t => ServingFailed i s t e ∧ e.has partialEefDie = false ∧ (t.client i).ssl = false := by
  have hplain := hbooks.plain
  unfold serverProcessTraffic Server.onClient
  refine ((parseRequest_meets ⟨hplain.requests, hplain.parse hstate⟩).mapState _).andThen
    (fun _ t ht => ?_) fun e t ht => ?_
  swap
  · -- the request is refused before anything is generated for it
    obtain ⟨_, rfl, ⟨progress, rfl⟩, he⟩ := ht
    refine ⟨.of_sameOutput hi howner hbooks ⟨rfl, rfl, rfl, rfl, rfl⟩ ⟨rfl, rfl, rfl⟩ rfl,
      not_die_of_parserError he, ?_⟩
    rw [Server.client_setClient hi]
    exact hplain.ssl
  obtain ⟨_, rfl, progress, rfl, hparse⟩ := ht
  rw [Server.client_setClient hi]
  by_cases hend : progress.parser.state = .end
  · -- the request is complete, and is answered
    rw [if_neg (not_not_intro hend), Server.setClient_setClient]
    set client : Client := { s.client i with progress := progress, lastRequestComplete := now }
      with hparsed
    have hidentity : (s.client i).SameIdentity client := ⟨rfl, rfl, rfl, rfl, rfl⟩
    have hsame : SameBooks (s.client i) client := ⟨rfl, rfl, rfl⟩
    have hclient := Server.client_setClient hi client
    have houtput : SameOutput s (s.setClient i client) := .setClient hi hidentity rfl s.effects
    have hparsed' : client.Plain :=
      ⟨hplain.operational, hplain.ssl, hplain.requests, fun _ => hparse, hplain.stream⟩
    have hbooks' := hbooks.with hi hidentity hsame rfl hparsed' hbooks.bounded
    have hspares : Spares i s (s.setClient i client) := .setClient hi hidentity
    refine (processRequest_meets (by rwa [Server.clients_setClient, List.length_set])
      (houtput.ownerInv howner) hbooks'.live hbooks'.plaintext hbooks'.plain (by rw [hclient]; exact hend)
      (by rw [hclient]; exact hparse) hbooks'.ledger answers).mono (fun _ t ht => ?_) fun e t ht => ?_
    · obtain ⟨ht, hcount⟩ := ht
      have hself := hspares.self.trans ht.spares.self
      obtain ⟨response, -, -, hledger⟩ := ht.response
      refine ⟨⟨hspares.trans ht.spares, ht.owner, ?_, ?_, ?_, ht.plain, ?_, ?_⟩,
        fun _ _ => by rw [hcount]; exact Nat.succ_pos _⟩
      · rw [hself.dead, hbooks.live]
      · rw [hself.encrypted_eq, hbooks.plaintext]
      · rw [hself.acceptingSocket]
        exact hbooks.connection
      · rw [ht.shorter, hclient]
        exact (Nat.sub_le _ _).trans hbooks.bounded
      · rw [ht.spares.self.birth]
        exact hledger
    · -- it was not answered; the books are right when a fixed response is to be sent
      obtain ⟨ht, he⟩ := ht
      obtain ⟨more, hmore, hkind⟩ := ht.told
      have hfront := (hbooks'.ledger.sentFromFront hbooks'.connection).generate hkind
      refine ⟨⟨hspares.trans ht.spares, ht.owner, ?_, fun hsend => ?_⟩, he⟩
      · rw [hmore, ← hspares.self.birth]
        exact hfront
      · obtain ⟨heffects, hpending, hbooksSame⟩ := ht.ledger hsend
        rw [heffects, hpending, ← hspares.self.birth]
        exact hbooks'.ledger.congr hbooksSame ht.spares.self.acceptingSocket
  · -- the request goes on
    rw [if_pos hend]
    have hidentity : (s.client i).SameIdentity { s.client i with progress := progress } :=
      ⟨rfl, rfl, rfl, rfl, rfl⟩
    have houtput : SameOutput s (s.setClient i { s.client i with progress := progress }) :=
      .setClient hi hidentity rfl s.effects
    exact ⟨⟨.setClient hi hidentity, houtput.ownerInv howner, hbooks.with hi hidentity ⟨rfl, rfl, rfl⟩ rfl
      ⟨hplain.operational, hplain.ssl, hplain.requests, fun _ => hparse, hplain.stream⟩ hbooks.bounded⟩,
      fun hqueued => hqueued.setClient hi rfl⟩

/-! ## Sending -/

/-- `server_send_traffic` keeps the books right, or fails because `send()` does. -/
theorem serverSendTraffic_served {v : Visit} (hi : i < v.server.clients.elements.length)
    (howner : v.server.OwnerInv) (hbooks : v.server.Books i)
    (hbirth : (v.server.ownPoll i).birth = (v.server.client i).birth) (now : ℤ)
    (answers : SendAnswers) :
    (serverSendTraffic i now answers v).Ensures (fun _ w => Served i v.server w.server)
      fun e w => e.eef = .closeLog ∧ ServingFailed i v.server w.server e ∧
        (w.server.client i).ssl = false := by
  refine (serverSendTraffic_ensures hi howner hbooks.plain hbooks.connection hbirth hbooks.ledger now
    answers).mono (fun _ w hw => ?_) fun e w hw => ?_
  · have hself := hw.spares.self
    refine ⟨hw.spares, hw.owner, ?_, ?_, ?_, hw.plain, ?_, ?_⟩
    · rw [hself.dead, hbooks.live]
    · rw [hself.encrypted_eq, hbooks.plaintext]
    · rw [hself.acceptingSocket]
      exact hbooks.connection
    · rw [hw.requestStream]
      exact hbooks.bounded
    · rw [hself.birth]
      exact hw.ledger
  · obtain ⟨he, hfailed, hssl⟩ := hw
    refine ⟨he, ⟨hfailed.spares, hfailed.owner, hfailed.front, fun hsend => absurd hsend ?_⟩, hssl⟩
    simp [ExError.not_has_send (.inl he)]

end

/-! ## Any order -/

/-- What is done for a client. -/
inductive ServingInput where
  | receive (i : ℕ) (now : ℤ) (flags : ConnectionFlags) (answers : ReceiveTrafficAnswers)
  | process (i : ℕ) (now : ℤ) (answers : ProcessAnswers)
  | send (i : ℕ) (now : ℤ) (flags : ConnectionFlags) (answers : SendAnswers)

/-- One of the functions is called for one of the clients, as a round calls it, and returns. -/
inductive ServingStep : Server → ServingInput → Server → Prop where
  | receive {s : Server} {w : Visit} {i : ℕ} {now : ℤ} {flags : ConnectionFlags}
      {answers : ReceiveTrafficAnswers} (hi : i < s.clients.elements.length)
      (returns : serverReceiveTraffic i now answers ⟨s, flags, false, true⟩ = .ok () w) :
      ServingStep s (.receive i now flags answers) w.server
  | process {s t : Server} {i : ℕ} {now : ℤ} {answers : ProcessAnswers}
      (hi : i < s.clients.elements.length) (sense : getMakesSenseToParse s i = true)
      (returns : serverProcessTraffic i now answers s = .ok () t) :
      ServingStep s (.process i now answers) t
  | send {s : Server} {w : Visit} {i : ℕ} {now : ℤ} {flags : ConnectionFlags} {answers : SendAnswers}
      (hi : i < s.clients.elements.length)
      (returns : serverSendTraffic i now answers ⟨s, flags, false, true⟩ = .ok () w) :
      ServingStep s (.send i now flags answers) w.server

/-- All clients were just accepted, on sockets without encryption: nothing was generated for them, and
nothing was sent. -/
structure Server.Accepted (s : Server) : Prop where
  paired : s.Paired
  nobody : s.shortResponseStreamOwner = none
  clients : ∀ client ∈ s.clients.elements, ∃ index address now birth,
    acceptingSocketIsConnection index = true ∧ client.encrypted = false ∧
    client = { newClient index address now birth with cryptographyState := .operational }
  quiet : ∀ client ∈ s.clients.elements, history client.birth s.effects = []

/-- The invariant of serving. -/
structure Server.InService (s : Server) : Prop where
  paired : s.Paired
  owner : s.OwnerInv
  books : ∀ i < s.clients.elements.length, s.Books i

section

variable {s t : Server}

theorem Server.Accepted.inService (h : s.Accepted) : s.InService := by
  refine ⟨h.paired, .inl h.nobody, fun i hi => ?_⟩
  have hmem : s.client i ∈ s.clients.elements := by
    rw [Server.client, List.getD_eq_getElem?_getD, List.getElem?_eq_getElem hi]
    exact List.getElem_mem hi
  obtain ⟨index, address, now, birth, hconnection, hplaintext, hclient⟩ := h.clients _ hmem
  have hquiet := h.quiet _ hmem
  have hpending : s.pending i = [] := by
    rw [Server.pending_of_not_owns (Server.owns_of_none h.nobody i), hclient]
    rfl
  refine ⟨?_, hplaintext, ?_, ?_, ?_, ?_⟩
  · rw [hclient]
    rfl
  · rw [hclient]
    exact hconnection
  · rw [hclient]
    exact ⟨rfl, rfl, Ring.zero_valid, fun _ => Progress.zero_parseInv _ _, Ring.zero_valid⟩
  · rw [hclient]
    exact Nat.zero_le _
  · rw [hpending, hquiet, hclient]
    exact Ledger.new index address now birth .operational

/-- The books of the others stay right when client `i` is served. -/
theorem Spares.books {i j : ℕ} (h : Spares i s t) (hs : s.Paired) (hi : i < s.clients.elements.length)
    (hj : j < s.clients.elements.length) (hij : j ≠ i) (hbooks : s.Books j) : t.Books j := by
  have hmoved := h.others j hij
  have hidentity := hmoved.identity
  have hbirth : (s.client j).birth ≠ (s.client i).birth := by
    intro heq
    apply hij
    exact hs.birth_inj hj hi heq
  have hhistory : history (s.client j).birth t.effects = history (s.client j).birth s.effects := by
    obtain ⟨more, hmore, hall⟩ := h.told
    have hnothing : history (s.client j).birth more = [] := by
      refine history_of_others fun effect heffect heq => hbirth ?_
      exact (Option.some.inj ((hall effect heffect).symm.trans heq)).symm
    rw [hmore, history_append, hnothing, List.append_nil]
  refine ⟨?_, ?_, ?_, hmoved.plain hbooks.plain, ?_, ?_⟩
  · rw [hidentity.dead, hbooks.live]
  · rw [hidentity.encrypted_eq, hbooks.plaintext]
  · rw [hidentity.acceptingSocket]
    exact hbooks.connection
  · rw [hmoved.request.1]
    exact hbooks.bounded
  · rw [h.pending j hij, hidentity.birth, hhistory]
    exact hbooks.ledger.congr hmoved.sameBooks hidentity.acceptingSocket

theorem Served.inService {i : ℕ} (h : Served i s t) (hs : s.InService) (hi : i < s.clients.elements.length) :
    t.InService := by
  refine ⟨?_, h.owner, fun j hj => ?_⟩
  · refine hs.paired.congr (map_eq_of_getD_eq .zero _ h.spares.length fun j => ?_)
      (congrArg (fun polls : Buffer Poll => polls.elements.map Poll.birth) h.spares.polls)
      h.spares.births.ge
    by_cases hij : j = i
    · rw [hij]
      exact h.spares.self.birth
    · exact (h.spares.others j hij).identity.birth
  · by_cases hij : j = i
    · exact hij ▸ h.books
    · rw [h.spares.length] at hj
      exact h.spares.books hs.paired hi hj hij (hs.books j hj)

theorem ServingStep.inService {input : ServingInput} (h : ServingStep s input t) (hs : s.InService) :
    t.InService := by
  cases h with
  | @receive w i now flags answers hi returns =>
    exact ((serverReceiveTraffic_ensures hi hs.owner (hs.books _ hi) _ _).of_eq_ok returns).1.inService hs hi
  | @process _ i now answers hi sense returns =>
    have hstate : (s.client i).progress.parser.state ≠ .end := by
      simp only [getMakesSenseToParse, Bool.and_eq_true, decide_eq_true_eq] at sense
      exact sense.1.1.2
    exact ((serverProcessTraffic_meets hi hs.owner (hs.books _ hi) hstate _ _).of_eq_ok
      returns).1.inService hs hi
  | @send w i now flags answers hi returns =>
    have hbirth : (s.ownPoll i).birth = (s.client i).birth := hs.paired.poll_birth hi
    exact ((serverSendTraffic_served (v := ⟨s, flags, false, true⟩) hi hs.owner (hs.books i hi) hbirth
      now answers).of_eq_ok returns).inService hs hi

/-- In every run of serving the invariant holds. -/
theorem servingRun_inService {inputs : List ServingInput} (hs : s.Accepted)
    (hrun : Runs ServingStep s inputs t) : t.InService :=
  hrun.invariant hs.inService fun _ _ _ hs h => h.inService hs

end

/-! ## Two readers -/

/-- Two readers of Nex were just accepted. -/
def readersServer : Server :=
  { Server.initial ⟨1, List.replicate acceptingSockets .zero ++
      [⟨some 20, .none, .none, 0⟩, ⟨some 21, .none, .none, 1⟩], 20⟩ with
    clients := ⟨2, [{ newClient 12 ⟨false, 1, 2⟩ 0 0 with cryptographyState := .operational },
      { newClient 12 ⟨false, 2, 2⟩ 0 1 with cryptographyState := .operational }], 2⟩
    births := 2 }

theorem readersServer_accepted : readersServer.Accepted := by
  refine ⟨⟨rfl, rfl, by decide, by decide⟩, rfl, ?_, fun _ _ => rfl⟩
  intro client hclient
  obtain rfl | hclient := List.mem_cons.mp hclient
  · exact ⟨12, ⟨false, 1, 2⟩, 0, 0, rfl, rfl, rfl⟩
  · obtain rfl := List.mem_singleton.mp hclient
    exact ⟨12, ⟨false, 2, 2⟩, 0, 1, rfl, rfl, rfl⟩

/-- The first reader sends a request, is answered that there is no such page, and takes two bytes of that;
then the request of the second reader moves the others to the response stream of the first. -/
theorem readersServer_runs : ∃ inputs t, Runs ServingStep readersServer inputs t ∧
    t.clients.elements.length = 2 ∧ (t.client 0).birth = 0 ∧
    sentIn (history 0 t.effects) = ascii "In" ∧
    (t.owns 0 = false ∧ t.owns 1 = true ∧ 0 < (t.client 0).responseStream.size) ∧
    ∀ response ∈ generatedIn (history 0 t.effects), response.text ≠ [] := by
  set received : ReceiveTrafficAnswers :=
    { quietRound.receive with stream := ⟨grantAll, .data 120 (ascii "\r\n"), .wouldBlock⟩ }
  set taken : SendAnswers := ⟨⟨.took 2 (by decide), .wouldBlock⟩, ⟨.wouldBlock, .wouldBlock⟩⟩
  have hrun : (serverReceiveTraffic 0 1 received ⟨readersServer, .no, false, true⟩).returnsIn (fun v =>
      (0 < v.server.clients.elements.length ∧ getMakesSenseToParse v.server 0 = true) ∧
      (serverProcessTraffic 0 1 quietRound.process v.server).returnsIn (fun s =>
        0 < s.clients.elements.length ∧
        (serverSendTraffic 0 1 taken ⟨s, .no, false, true⟩).returnsIn (fun w =>
          1 < w.server.clients.elements.length ∧
          (serverReceiveTraffic 1 1 received ⟨w.server, .no, false, true⟩).returnsIn (fun u =>
            (1 < u.server.clients.elements.length ∧ getMakesSenseToParse u.server 1 = true) ∧
            (serverProcessTraffic 1 1 quietRound.process u.server).returnsIn (fun t =>
              t.clients.elements.length = 2 ∧ (t.client 0).birth = 0 ∧
                sentIn (history 0 t.effects) = ascii "In" ∧
                (t.owns 0 = false ∧ t.owns 1 = true ∧ 0 < (t.client 0).responseStream.size) ∧
                ∀ response ∈ generatedIn (history 0 t.effects), response.text ≠ []) = true) = true)
          = true) = true) = true := by
    decide +kernel
  obtain ⟨_, v, hreceived, hcheck⟩ := Outcome.exists_of_returnsIn hrun
  obtain ⟨⟨hlt, hsense⟩, hserved⟩ := of_decide_eq_true hcheck
  obtain ⟨_, s, hprocessed, hcheck⟩ := Outcome.exists_of_returnsIn hserved
  obtain ⟨hlt', hserved⟩ := of_decide_eq_true hcheck
  obtain ⟨_, w, hsent, hcheck⟩ := Outcome.exists_of_returnsIn hserved
  -- the second reader
  obtain ⟨hlt₂, hserved⟩ := of_decide_eq_true hcheck
  obtain ⟨_, u, hreceived₂, hcheck⟩ := Outcome.exists_of_returnsIn hserved
  obtain ⟨⟨hlt₂', hsense₂⟩, hserved⟩ := of_decide_eq_true hcheck
  obtain ⟨_, t, hprocessed₂, hcheck⟩ := Outcome.exists_of_returnsIn hserved
  exact ⟨_, t, .cons (.receive Nat.zero_lt_two hreceived) (.cons (.process hlt hsense hprocessed)
    (.cons (.send hlt' hsent) (.cons (.receive hlt₂ hreceived₂)
      (.cons (.process hlt₂' hsense₂ hprocessed₂) (.nil _))))), of_decide_eq_true hcheck⟩

/-! ## Every byte is delivered -/

section

variable {s t : Server}

/-- Whatever was received, processed and sent for whom in what order: what a client was sent, followed by
what it has in the short response stream and in its own, is the concatenation of the responses that were
generated for it. -/
theorem servingRun_delivers {inputs : List ServingInput} {i : ℕ} (hs : s.Accepted)
    (hrun : Runs ServingStep s inputs t) (hi : i < t.clients.elements.length) :
    sentIn (history (t.client i).birth t.effects) ++
        (t.shortPending i ++ ringContent (t.client i).responseStream)
      = texts (generatedIn (history (t.client i).birth t.effects)) := by
  have hbooks := (servingRun_inService hs hrun).books i hi
  obtain ⟨entries, part, done, rest, hledger⟩ := hbooks.ledger
  exact hledger.sent_append_pending hbooks.connection

end

/-- The first reader was sent two bytes of its response, and the others are in its response stream, as the
second reader has the short one. -/
theorem servingRun_delivers_reader : ∃ inputs t, Runs ServingStep readersServer inputs t ∧
    sentIn (history 0 t.effects) = ascii "In" ∧
    (t.owns 0 = false ∧ t.owns 1 = true ∧ 0 < (t.client 0).responseStream.size) ∧
    sentIn (history (t.client 0).birth t.effects) ++
        (t.shortPending 0 ++ ringContent (t.client 0).responseStream)
      = texts (generatedIn (history (t.client 0).birth t.effects)) := by
  obtain ⟨inputs, t, hrun, hlength, -, hbytes, hmoved, -⟩ := readersServer_runs
  exact ⟨inputs, t, hrun, hbytes, hmoved,
    servingRun_delivers readersServer_accepted hrun (by rw [hlength]; exact Nat.zero_lt_two)⟩

/-! ## Queues in step -/

section

variable {s t : Server}

/-- The response queue of client `i` is in step with what the client was sent: `done` are the responses
that are gone, `rest` those of which something is pending, `entries` their entries, and `part` how much of
the first of them was sent. -/
structure Server.QueueInStep (s : Server) (i : ℕ) (entries : List ResponseEntry) (part : ℕ)
    (done rest : List Generated) : Prop extends LedgerWith (s.client i) (s.pending i)
      (history (s.client i).birth s.effects) entries part done rest where
  outstanding : ∀ entry others, entries = entry :: others →
    (s.client i).response.streamSize + totalSize others = clientResponseStreamSize s i
  unfinished : ∀ entry ∈ entries.head?, part < entry.response.streamSize
  queue_empty : (s.client i).responseQueue.size = 0 ↔ clientResponseStreamSize s i = 0
  count_zero : (s.client i).responseCount = 0 ↔ clientResponseStreamSize s i = 0
  pops : ∀ (now : ℤ) (sent : ℕ), sent ≤ clientResponseStreamSize s i →
    ∃ gone left part' u, entries = gone ++ left ∧ serverPopResponses i now sent s = .ok () u ∧
      u.effects = s.effects ++ poppedEffects (s.client i).birth gone ∧
      QueueHolds (u.client i) left part' ∧ totalSize gone + part' = part + sent ∧
      ∀ entry ∈ left.head?, part' < entry.response.streamSize
  sends : ∀ (now : ℤ) (flags : ConnectionFlags) (answers : SendAnswers),
    (serverSendTraffic i now answers ⟨s, flags, false, true⟩).Ensures (fun _ _ => True)
      fun e _ => e.eef = .closeLog

/-- Every entry accounts for one of the responses. -/
theorem exists_accountsFor {entries : List ResponseEntry} {rest : List Generated}
    (h : List.Forall₂ ResponseEntry.AccountsFor entries rest) {entry : ResponseEntry}
    (hentry : entry ∈ entries) : ∃ response ∈ rest, entry.AccountsFor response := by
  induction h with
  | nil => cases hentry
  | cons hhead _ ih =>
    rcases List.mem_cons.mp hentry with rfl | hentry
    · exact ⟨_, List.mem_cons_self, hhead⟩
    · obtain ⟨response, hresponse, haccounts⟩ := ih hentry
      exact ⟨response, List.mem_cons_of_mem _ hresponse, haccounts⟩

/-- While no response is empty, a part of the first one is all of it that can be gone. -/
theorem QueueHolds.unfinished {client : Client} {entries : List ResponseEntry} {part : ℕ}
    (h : QueueHolds client entries part) (hpos : ∀ entry ∈ entries, 0 < entry.response.streamSize) :
    ∀ entry ∈ entries.head?, part < entry.response.streamSize := by
  intro entry hentry
  have hlt := hpos entry (List.mem_of_mem_head? hentry)
  rcases (h.head entry hentry).2 with rfl | hpart
  · exact hlt
  · exact hpart

/-- In every run in which no response is empty, the response queue of a client is in step with what the
client was sent. -/
theorem servingRun_queueInStep {inputs : List ServingInput} {i : ℕ} (hs : s.Accepted)
    (hrun : Runs ServingStep s inputs t) (hi : i < t.clients.elements.length)
    (hnonempty : ∀ response ∈ generatedIn (history (t.client i).birth t.effects), response.text ≠ []) :
    ∃ entries part done rest, t.QueueInStep i entries part done rest := by
  have hservice := servingRun_inService hs hrun
  have hbooks := hservice.books i hi
  obtain ⟨entries, part, done, rest, hledger⟩ := hbooks.ledger
  have hsize : clientResponseStreamSize t i = (t.pending i).length :=
    hservice.owner.size_eq hbooks.plain.stream
  have hlength := hledger.length_pending
  -- a response with a text is not finished before a byte of it was sent
  have hpos : ∀ entry ∈ entries, 0 < entry.response.streamSize := fun entry hentry => by
    obtain ⟨response, hresponse, haccounts⟩ := exists_accountsFor hledger.accounts hentry
    rw [haccounts.streamSize]
    refine List.length_pos_of_ne_nil (hnonempty response ?_)
    rw [hledger.generated]
    exact List.mem_append_right _ hresponse
  have hunfinished := hledger.queue.unfinished hpos
  have hqueue := hledger.queue.size_eq
  have htotal : ∀ (entry : ResponseEntry) (others : List ResponseEntry), totalSize (entry :: others)
      = entry.response.streamSize + totalSize others := fun entry others => by
    rw [totalSize, List.map_cons, List.sum_cons, ← totalSize]
  -- so an entry in the queue means that something is pending
  have hnothing : entries = [] ↔ clientResponseStreamSize t i = 0 := by
    rw [hsize]
    rcases entries with _ | ⟨entry, others⟩
    · have hzero : totalSize [] = 0 := rfl
      exact iff_of_true rfl (by omega)
    · have hpart := hunfinished entry rfl
      have := htotal entry others
      exact iff_of_false (List.cons_ne_nil _ _) (by omega)
  refine ⟨entries, part, done, rest, hledger, ?_, hunfinished, ?_, ?_, ?_, ?_⟩
  · rintro entry others rfl
    have hpart := hunfinished entry rfl
    have := htotal entry others
    rw [(hledger.queue.head entry rfl).1, hsize]
    show entry.response.streamSize - part + _ = _
    omega
  · rw [hqueue, ← hnothing]
    rcases entries with _ | ⟨entry, others⟩
    · exact iff_of_true rfl rfl
    · refine iff_of_false ?_ (List.cons_ne_nil _ _)
      have hsizeof : sizeofResponse = 88 := rfl
      rw [List.flatMap_cons, List.length_append, entry.length_bytes]
      omega
  · rw [hledger.queue.count, List.length_eq_zero_iff, hnothing]
  · -- any number of bytes can be sent, and pops what ends within them
    intro now sent hsent
    obtain ⟨gone, left, queue, response, part', rfl, hloop, hqueue', hsum⟩ :=
      popResponsesLoop_spec now _ sent hledger.queue (by omega) hledger.queue.length_lt []
    refine ⟨gone, left, part', _, rfl, by rw [serverPopResponses, hloop, Outcome.mapState_ok], ?_, ?_, hsum,
      ?_⟩
    · show t.effects ++ ([] ++ poppedEffects _ gone) = _
      rw [List.nil_append]
    · have hclient : (t.setClient i _).client i = _ := Server.client_setClient hi
        ((t.client i).popped now gone queue response left.length)
      exact Eq.mpr (congrArg (QueueHolds · left part') hclient) hqueue'
    · exact hqueue'.unfinished fun entry hentry => hpos entry (List.mem_append_right _ hentry)
  · intro now flags answers
    have hbirth : (t.ownPoll i).birth = (t.client i).birth := hservice.paired.poll_birth hi
    exact (serverSendTraffic_served (v := ⟨t, flags, false, true⟩) hi hservice.owner hbooks hbirth now
      answers).mono (fun _ _ _ => trivial) fun _ _ he => he.1

end

/-- Its queue is in step with that. -/
theorem servingRun_queueInStep_reader : ∃ inputs t entries part done rest,
    Runs ServingStep readersServer inputs t ∧ sentIn (history 0 t.effects) = ascii "In" ∧
    t.QueueInStep 0 entries part done rest := by
  obtain ⟨inputs, t, hrun, hlength, hbirth, hbytes, -, htexts⟩ := readersServer_runs
  obtain ⟨entries, part, done, rest, hqueue⟩ := servingRun_queueInStep readersServer_accepted hrun
    (by rw [hlength]; exact Nat.zero_lt_two) (by rw [hbirth]; exact htexts)
  exact ⟨inputs, t, entries, part, done, rest, hrun, hbytes, hqueue⟩

end Twinkleshine
