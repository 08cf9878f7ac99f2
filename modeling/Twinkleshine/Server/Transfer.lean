import Twinkleshine.Library.Reassembly
import Twinkleshine.Server.Transmission

/-!
# A message on its way to a client

`TransferStep` is a server and a client of Guppy with a network between them. What the server sends is in the
network from then on; it may be lost, and may come late, in any order and more than once. The client
acknowledges packets that have come, and the acknowledgements may be lost and come late as well.

The steps are those of a client that lives and stays under its index: rounds in which it is sent chunks,
datagrams for anybody, visits of others, and its own acknowledgements. A message that is given up with its
client, after too many repetitions or when a timeout has passed, is not among them. Whatever these steps do,
the client puts the right text together or none, and when nothing of the message is pending any more, it has
all of it.
-/

namespace Twinkleshine

open Library

/-! ## What a client reads -/

/-- The number and the data of a datagram. A space follows the number of the first packet, and an end of
line follows that of any other. -/
def packetOf (datagram : List UInt8) : Packet UInt8 :=
  let rest := datagram.dropWhile isDecimal
  ⟨digitsNumber (datagram.takeWhile isDecimal), rest.drop (if rest.head? = some 32 then 1 else 2)⟩

/-- The packet a message begins with. -/
def isFirstPacket (datagram : List UInt8) : Bool := (datagram.dropWhile isDecimal).head? == some 32

/-- The text of the message, as soon as the datagrams that have come are enough. -/
def receivedText (received : List (List UInt8)) : Option (List UInt8) :=
  (received.find? isFirstPacket).bind fun datagram =>
    assemble (received.map packetOf) received.length (packetOf datagram).number

section

variable {firstChunk k : ℕ} {pieces : List (List UInt8)}

/-- What stands behind the number of a chunk. -/
theorem chunkAt_split (firstChunk : ℕ) (pieces : List (List UInt8)) (k : ℕ) :
    (chunkAt firstChunk pieces k).takeWhile isDecimal = decimal (firstChunk + k) ∧
      (chunkAt firstChunk pieces k).dropWhile isDecimal
        = (if k = 0 then ascii " " else crlf) ++ pieces.getD k [] := by
  have hchunk := congrFun (chunkAt_eq firstChunk pieces) k
  rw [List.append_assoc] at hchunk
  rw [hchunk, List.takeWhile_append_of_pos (all_decimal _), List.dropWhile_append_of_pos (all_decimal _)]
  split_ifs
  · exact ⟨List.append_nil _, rfl⟩
  · exact ⟨List.append_nil _, rfl⟩

/-- A client reads the number and the piece of a chunk. -/
theorem packetOf_chunkAt (hk : firstChunk + k < 2 ^ 32) :
    packetOf (chunkAt firstChunk pieces k) = ⟨firstChunk + k, pieces.getD k []⟩ := by
  obtain ⟨hnumber, hrest⟩ := chunkAt_split firstChunk pieces k
  have hsmall : (firstChunk + k) % uintModulus = firstChunk + k := Nat.mod_eq_of_lt hk
  rw [packetOf, hnumber, hrest, (decimal_spec _).2.2, hsmall]
  by_cases hzero : k = 0
  · rw [if_pos hzero]
    rfl
  · rw [if_neg hzero]
    rfl

/-- The packet a message begins with is its first chunk. -/
theorem isFirstPacket_chunkAt :
    isFirstPacket (chunkAt firstChunk pieces k) = true ↔ k = 0 := by
  rw [isFirstPacket, (chunkAt_split firstChunk pieces k).2]
  split_ifs with hk
  · exact iff_of_true rfl hk
  · exact iff_of_false Bool.false_ne_true hk

/-- All datagrams are chunks of a message. -/
def ChunksOf (firstChunk : ℕ) (pieces : List (List UInt8)) (datagrams : List (List UInt8)) : Prop :=
  ∀ datagram ∈ datagrams, ∃ k < pieces.length, datagram = chunkAt firstChunk pieces k

namespace ChunksOf

variable {received : List (List UInt8)}

theorem append {more : List (List UInt8)} (h : ChunksOf firstChunk pieces received)
    (hmore : ChunksOf firstChunk pieces more) : ChunksOf firstChunk pieces (received ++ more) := by
  intro datagram hdatagram
  rcases List.mem_append.mp hdatagram with hdatagram | hdatagram
  · exact h datagram hdatagram
  · exact hmore datagram hdatagram

theorem packets (h : ChunksOf firstChunk pieces received) (hsmall : firstChunk + pieces.length < 2 ^ 32) :
    PacketsOf firstChunk pieces (received.map packetOf) := by
  intro packet hpacket
  obtain ⟨datagram, hdatagram, rfl⟩ := List.mem_map.mp hpacket
  obtain ⟨k, hk, rfl⟩ := h datagram hdatagram
  exact ⟨k, hk, packetOf_chunkAt (by omega)⟩

/-- What a client puts together is never anything but the payload. -/
theorem receivedText_eq (h : ChunksOf firstChunk pieces received)
    (hsmall : firstChunk + pieces.length < 2 ^ 32) {payload text : List UInt8}
    (hmessage : IsMessage firstChunk payload pieces) (htext : receivedText received = some text) :
    text = payload := by
  obtain ⟨datagram, hfind, hassembled⟩ := Option.bind_eq_some_iff.mp htext
  obtain ⟨k, hk, rfl⟩ := h datagram (List.mem_of_find?_eq_some hfind)
  obtain rfl : k = 0 := isFirstPacket_chunkAt.mp (List.find?_some hfind)
  rw [packetOf_chunkAt (by omega)] at hassembled
  rw [assemble_eq (h.packets hsmall) hmessage.piece_eq_nil_iff hassembled, List.drop_zero,
    hmessage.flatten_eq]

/-- A client that all chunks have come to has the payload. -/
theorem receivedText_complete (h : ChunksOf firstChunk pieces received)
    (hsmall : firstChunk + pieces.length < 2 ^ 32) {payload : List UInt8}
    (hmessage : IsMessage firstChunk payload pieces)
    (hcome : ∀ k < pieces.length, firstChunk + k ∈ (received.map packetOf).map Packet.number) :
    receivedText received = some payload := by
  have htwo := hmessage.two_le
  -- the first chunk is among those that have come
  obtain ⟨packet, hpacket, hnumber⟩ := List.mem_map.mp (hcome 0 (by omega))
  obtain ⟨datagram, hdatagram, rfl⟩ := List.mem_map.mp hpacket
  obtain ⟨k, hk, rfl⟩ := h datagram hdatagram
  rw [packetOf_chunkAt (by omega)] at hnumber
  obtain rfl : k = 0 := Nat.add_left_cancel hnumber
  have hfound : (received.find? isFirstPacket).isSome = true :=
    List.find?_isSome.mpr ⟨_, hdatagram, isFirstPacket_chunkAt.mpr rfl⟩
  obtain ⟨first, hfind⟩ := Option.isSome_iff_exists.mp hfound
  obtain ⟨j, hj, rfl⟩ := h first (List.mem_of_find?_eq_some hfind)
  obtain rfl : j = 0 := isFirstPacket_chunkAt.mp (List.find?_some hfind)
  have hle := length_le_of_come hcome
  rw [List.length_map] at hle
  rw [receivedText, hfind, Option.bind_some, packetOf_chunkAt (by omega),
    assemble_complete (h.packets hsmall) hmessage.piece_eq_nil_iff hcome hj hle, List.drop_zero,
    hmessage.flatten_eq]

end ChunksOf

end

/-! ## Server, network and client -/

/-- A server, all that it has sent to a client, and what has come there. -/
structure Transfer where
  server : Server
  sent : List (List UInt8)
  received : List (List UInt8)

inductive TransferEvent where
  /-- Something happens at the server that is no acknowledgement. -/
  | served (event : MessageEvent)
  /-- A datagram comes to the client. -/
  | delivered (datagram : List UInt8)
  /-- An acknowledgement of this number comes to the server and is accepted. -/
  | acknowledged (number : ℕ)

/-- The datagrams client `i` was sent from `s` to `t`. -/
def sentSince (i : ℕ) (s t : Server) : List (List UInt8) :=
  sentToIn (history (s.client i).birth (t.effects.drop s.effects.length))

/-- What may happen between a server and its client `i`, which acknowledges what has come. -/
inductive TransferStep (i : ℕ) : Transfer → TransferEvent → Transfer → Prop where
  | served {x : Transfer} {event : MessageEvent} {t : Server} (hevent : acknowledgedIn [event] = [])
      (hstep : MessageStep i x.server event t) :
      TransferStep i x (.served event) ⟨t, x.sent ++ sentSince i x.server t, x.received⟩
  | delivered {x : Transfer} {datagram : List UInt8} (hsent : datagram ∈ x.sent) :
      TransferStep i x (.delivered datagram) { x with received := x.received ++ [datagram] }
  | acknowledged {x : Transfer} {v w : Visit} {number : ℕ} {realloc : Realloc} (hserver : v.server = x.server)
      (hcome : number ∈ (x.received.map packetOf).map Packet.number)
      (hdatagram : IsAcknowledgement v.server.datagram number)
      (howner : v.server.shortRequestMessageOwner = some (v.server.pointer i))
      (hrequest : v.server.messageIsRequest = false)
      (hok : serverReceiveDataGuppy i realloc v = .ok () w) :
      TransferStep i x (.acknowledged number) { x with server := w.server }

/-- In the middle of a message that started in state `s`: all that was sent are its chunks, and what was
acknowledged has come. -/
structure Transferring (firstChunk : ℕ) (pieces : List (List UInt8)) (i : ℕ) (s : Server) (x : Transfer) :
    Prop where
  tracked : ∃ events counters told, Tracked firstChunk pieces i s events x.server counters told ∧
    ∀ number ∈ acknowledgedIn events, number ∈ (x.received.map packetOf).map Packet.number
  sent : ChunksOf firstChunk pieces x.sent
  received : ChunksOf firstChunk pieces x.received

section

variable {firstChunk i : ℕ} {pieces : List (List UInt8)} {s t : Server} {x y : Transfer}
  {payload : List UInt8} {event : TransferEvent}

theorem sentSince_eq {more : List Effect} (h : t.effects = s.effects ++ more) :
    sentSince i s t = sentToIn (history (s.client i).birth more) := by
  rw [sentSince, h, List.drop_left]

/-- A step of the server sends chunks of the message, if anything. -/
theorem Tracked.sentSince {events : List MessageEvent} {counters : List UInt8} {told : List Effect}
    (h : Tracked firstChunk pieces i s events t counters told)
    (hmessage : IsMessage firstChunk payload pieces) (hpayload : payload.length < 2 ^ 30)
    (hfirst : firstChunk ≤ 2 ^ 31) {event : MessageEvent} {u : Server}
    (hevent : acknowledgedIn [event] = []) (hstep : MessageStep i t event u) :
    ChunksOf firstChunk pieces (sentSince i t u) := by
  rcases event with _ | number | _
  · obtain ⟨-, ks, newCounters, hround⟩ := h.round_made hmessage hpayload hfirst hstep
    obtain ⟨popped, heffects⟩ := hround.told
    rw [sentSince_eq (heffects.trans (List.append_assoc ..)), sentToIn_round]
    intro datagram hdatagram
    obtain ⟨k, hk, rfl⟩ := List.mem_map.mp hdatagram
    exact ⟨k, h.length ▸ (hround.sent.mem hk).1, rfl⟩
  · cases hevent
  · have hnothing : Twinkleshine.sentSince i t u = [] := by
      cases hstep with
      | received => exact (sentSince_eq (List.append_nil t.effects).symm).trans rfl
      | served hj hbirth hspares howner =>
        obtain ⟨more, hmore, hothers⟩ := hspares.told
        rw [sentSince_eq hmore, history_of_others, sentToIn, List.filterMap_nil]
        intro effect heffect
        rw [hothers effect heffect, ne_eq, Option.some.injEq]
        exact hbirth
    rw [hnothing]
    exact fun datagram hdatagram => absurd hdatagram List.not_mem_nil

/-- Every step of server, network and client keeps this. -/
theorem Transferring.step (h : Transferring firstChunk pieces i s x)
    (hmessage : IsMessage firstChunk payload pieces) (hpayload : payload.length < 2 ^ 30)
    (hfirst : firstChunk ≤ 2 ^ 31) (hstep : TransferStep i x event y) :
    Transferring firstChunk pieces i s y := by
  have hle := hmessage.length_pieces_le
  have hsmall : firstChunk + pieces.length < 2 ^ 32 := by omega
  obtain ⟨events, counters, told, htracked, hcome⟩ := h.tracked
  cases hstep with
  | served hevent hstep =>
    obtain ⟨newCounters, more, hnext⟩ := htracked.step hmessage hpayload hfirst hstep
    refine ⟨⟨_, newCounters, _, hnext, ?_⟩, h.sent.append (htracked.sentSince hmessage hpayload hfirst
      hevent hstep), h.received⟩
    rw [acknowledgedIn_append, hevent, List.append_nil]
    exact hcome
  | @delivered datagram hsent =>
    have hchunk : ChunksOf firstChunk pieces [datagram] := by
      intro other hother
      rw [List.mem_singleton.mp hother]
      exact h.sent datagram hsent
    refine ⟨⟨events, counters, told, htracked, fun number hnumber => ?_⟩, h.sent, h.received.append hchunk⟩
    rw [List.map_append, List.map_append]
    exact List.mem_append_left _ (hcome number hnumber)
  | @acknowledged v w number _ hserver hnumber hdatagram howner hrequest hok =>
    -- the number that is acknowledged is read as it is
    obtain ⟨packet, hpacket, rfl⟩ := List.mem_map.mp hnumber
    obtain ⟨k, hk, rfl⟩ := h.received.packets hsmall packet hpacket
    have hread := hdatagram.strtoul_eq (show firstChunk + k < 2 ^ 64 by omega)
    have hstep := MessageStep.acknowledged howner hrequest hok
    rw [hread, hserver] at hstep
    obtain ⟨newCounters, more, hnext⟩ := htracked.step hmessage hpayload hfirst hstep
    refine ⟨⟨_, newCounters, _, hnext, fun other hother => ?_⟩, h.sent, h.received⟩
    rw [acknowledgedIn_append, List.mem_append] at hother
    rcases hother with hother | hother
    · exact hcome other hother
    · rw [List.mem_singleton.mp hother]
      exact hnumber

/-- A message that nothing is pending of any more was acknowledged, and has come. -/
theorem Transferring.complete (h : Transferring firstChunk pieces i s x)
    (hmessage : IsMessage firstChunk payload pieces) (hsmall : firstChunk + pieces.length < 2 ^ 32)
    (hpending : x.server.pending i = []) : receivedText x.received = some payload := by
  obtain ⟨events, counters, told, htracked, hcome⟩ := h.tracked
  rcases htracked.state with hsends | ⟨hall, -⟩
  · have hpos := hmessage.length_message_pos
    rw [← hsends.pending, hpending] at hpos
    exact absurd hpos (Nat.lt_irrefl 0)
  · refine h.received.receivedText_complete hsmall hmessage fun k hk => ?_
    exact hcome _ (htracked.all_iff.mp hall k hk)

end

/-! ## Where a message starts -/

/-- A page is handed out as it was generated, with its number of chunks. -/
theorem processorProcess_page {acceptingSocket : ℕ} {request : Request} {lookup : Lookup}
    {env : ProcessorEnvironment} {s t : ProcessorState} {response : Response} {stream : TextValue}
    (hmessage : acceptingSocketIsConnection acceptingSocket = false) {page : GeneratedPage}
    (hpage : env.page = .page page)
    (hok : processorProcess acceptingSocket request lookup env s = .ok (response, stream) t) :
    ∃ method resource protocol queue, t = ⟨⟨page.one, page.two⟩, queue⟩ ∧
      stream = .ofBuffers ⟨page.one, page.two⟩ ∧
      processorConstructResponse s.responseQueue env.queueRealloc stream.size request.keepAlive
        page.firstChunk page.chunkNumber method resource protocol = .ok response queue := by
  have hsocket : 16 ≤ acceptingSocket := by simpa [acceptingSocketIsConnection] using hmessage
  have hhttp : (acceptingSocketIsHttp acceptingSocket || acceptingSocketIsHttps acceptingSocket) = false := by
    simp only [acceptingSocketIsHttp, acceptingSocketIsHttps, Bool.or_eq_false_iff,
      Bool.and_eq_false_iff, decide_eq_false_iff_not]
    omega
  unfold processorProcess at hok
  rw [hpage, hhttp] at hok
  rcases hmethod : lookup request.method with e | method
  · rw [hmethod] at hok
    cases hok
  rcases hresource : lookup request.resource with e | resource
  · rw [hmethod, hresource] at hok
    cases hok
  rcases hprotocol : lookup request.protocol with e | protocol
  · rw [hmethod, hresource, hprotocol] at hok
    cases hok
  rw [hmethod, hresource, hprotocol] at hok
  obtain ⟨built, u, hbuilt, hlast⟩ := Outcome.andThen_eq_ok.mp hok
  obtain ⟨queue, hconstruct, rfl⟩ := Outcome.mapState_eq_ok.mp hbuilt
  obtain ⟨hresult, rfl⟩ := Outcome.ok.inj hlast
  obtain ⟨rfl, rfl⟩ := Prod.mk.inj hresult
  exact ⟨method, resource, protocol, queue, rfl, rfl, hconstruct⟩

/-- The response becomes the current one of a client that has no other. -/
theorem takeRequest_eq_ok {response : Response} {client d : Client} (hcount : client.responseCount = 0)
    (hok : takeRequest response client = .ok () d) :
    ∃ stream, d = { client with requestStream := stream, response := response } := by
  obtain ⟨_, u, hpopped, hlast⟩ := Outcome.andThen_eq_ok.mp hok
  obtain ⟨stream, -, rfl⟩ := Outcome.mapState_eq_ok.mp hpopped
  obtain ⟨-, rfl⟩ := Outcome.ok.inj hlast
  exact ⟨stream, if_pos hcount⟩

/-- The blocks of a request that is answered, one after the other. -/
theorem processRequest_eq_ok {s t : Server} {i : ℕ} {answers : ProcessAnswers}
    (hok : processRequest i answers s = .ok () t) :
    ∃ s₁ response stream s₂ client s₄ last, flushShortResponseStream answers.flush s = .ok () s₁ ∧
      generateResponse i answers.processor s₁ = .ok (response, stream) s₂ ∧
      takeRequest response (s₂.client i) = .ok () client ∧
      (∃ log, storeResponse i answers response stream ((s₂.emit log).setClient i client) = .ok () s₄) ∧
      resetParser answers.finalize ((s₄.setClient i { s₄.client i with
        responseCount := (s₄.client i).responseCount + 1 }).client i) = .ok () last ∧
      t = (s₄.setClient i { s₄.client i with
        responseCount := (s₄.client i).responseCount + 1 }).setClient i last := by
  obtain ⟨_, s₁, hflush, hok⟩ := Outcome.andThen_eq_ok.mp hok
  obtain ⟨⟨response, stream⟩, s₂, hgenerate, hok⟩ := Outcome.andThen_eq_ok.mp hok
  obtain ⟨_, s₃, htake, hok⟩ := Outcome.andThen_eq_ok.mp hok
  obtain ⟨client, htaken, rfl⟩ := Server.onClient_eq_ok htake
  obtain ⟨_, s₄, hstore, hok⟩ := Outcome.andThen_eq_ok.mp hok
  obtain ⟨last, hreset, rfl⟩ := Server.onClient_eq_ok hok
  exact ⟨s₁, response, stream, s₂, client, s₄, last, hflush, hgenerate, htaken, ⟨_, hstore⟩, hreset, rfl⟩

/-- The response of a client with nothing in its books is a page: its entry is the only one in the queue, with
all counters zero. -/
theorem generateResponse_page {s t : Server} {i : ℕ} {env : ProcessorEnvironment} {response : Response}
    {stream : TextValue} (hmessage : acceptingSocketIsConnection (s.client i).acceptingSocket = false)
    (hqueue : QueueHolds (s.client i) [] 0) {page : GeneratedPage} (hpage : env.page = .page page)
    (hok : generateResponse i env s = .ok (response, stream) t) :
    ∃ queue entry, t = { s.setClient i { s.client i with responseQueue := queue } with
        buffers := ⟨page.one, page.two⟩ } ∧
      stream = .ofBuffers ⟨page.one, page.two⟩ ∧
      QueueHolds { s.client i with responseQueue := queue, response := response, responseCount := 1 }
        [entry] 0 ∧
      entry.chunks = List.replicate page.chunkNumber 0 ∧ entry.response.firstChunk = page.firstChunk ∧
      entry.response.streamSize = (page.one ++ page.two).length := by
  obtain ⟨u, hprocess, rfl⟩ := Outcome.mapState_eq_ok.mp hok
  obtain ⟨method, resource, protocol, queue, rfl, rfl, hconstruct⟩ :=
    processorProcess_page hmessage hpage hprocess
  have hsize : (TextValue.ofBuffers ⟨page.one, page.two⟩).size = (page.one ++ page.two).length :=
    List.length_append.symm
  have hsmall : (TextValue.ofBuffers ⟨page.one, page.two⟩).size < 2 ^ 64 := by
    have hpageSmall := page.small
    rw [TextValue.size, TextValue.ofBuffers]
    dsimp only
    omega
  exact ⟨queue, _, rfl, rfl, hqueue.constructed hsmall page.firstChunk_lt hconstruct, rfl, rfl, hsize⟩

/-- A client that has nothing in its response stream gets the short one. -/
theorem storeResponse_short {s : Server} {i : ℕ} (hssl : (s.client i).ssl = false)
    (hempty : (s.client i).responseStream.size = 0) (answers : ProcessAnswers) (response : Response)
    (stream : TextValue) :
    storeResponse i answers response stream s = .ok () { s with
      shortResponseStream := stream
      shortResponseStreamOwner := some (s.pointer i) } := by
  rw [storeResponse, if_neg (by simp [hssl]), if_neg (Nat.not_lt.mpr (Nat.le_of_eq hempty))]

/-- What is in the short stream is all that is pending for a client of Guppy with nothing in its own. -/
theorem Server.Owns.ofShort {s : Server} {i : ℕ} (hi : i < s.clients.elements.length) {d : Client}
    (hlive : d.dead = false) (hmessage : acceptingSocketIsConnection d.acceptingSocket = false)
    (hvalid : d.responseStream.Valid) (hempty : d.responseStream.size = 0) {stream : TextValue}
    (hreadable : valueSize (stream.read s.buffers) = stream.size) :
    (({ s with
      shortResponseStream := stream
      shortResponseStreamOwner := some (s.pointer i) } : Server).setClient i d).Owns i := by
  have hclient : (({ s with
      shortResponseStream := stream
      shortResponseStreamOwner := some (s.pointer i) } : Server).setClient i d).client i = d :=
    Server.client_setClient (s := { s with
      shortResponseStream := stream
      shortResponseStreamOwner := some (s.pointer i) }) hi d
  -- only connections are encrypted
  have hencrypted : d.encrypted = false := by
    simp only [acceptingSocketIsConnection, decide_eq_false_iff_not] at hmessage
    simp only [Client.encrypted, acceptingSocketIsHttps, acceptingSocketIsGemini, Bool.or_eq_false_iff,
      Bool.and_eq_false_iff, decide_eq_false_iff_not]
    omega
  refine ⟨rfl, hi.trans_eq List.length_set.symm, ?_, ?_, ?_, ?_, hreadable⟩
  · rw [hclient, hlive]
  · rw [hclient, hencrypted]
  · rw [hclient]
    exact hvalid
  · rw [hclient, hempty]

/-- The answer to a request of a client of Guppy that has nothing pending is the start of a message. -/
theorem processRequest_startsMessage {s t : Server} {i : ℕ} {answers : ProcessAnswers}
    (hi : i < s.clients.elements.length) (howner : s.OwnerInv) (hlive : (s.client i).dead = false)
    (hmessage : acceptingSocketIsConnection (s.client i).acceptingSocket = false)
    (hplain : (s.client i).Plain) (hqueue : QueueHolds (s.client i) [] 0) (hpending : s.pending i = [])
    {page : GeneratedPage} (hpage : answers.processor.page = .page page)
    (hok : processRequest i answers s = .ok () t) :
    StartsMessage page.firstChunk page.chunkNumber (page.one ++ page.two) i t := by
  obtain ⟨s₁, response, stream, s₂, client, s₄, last, hflush, hgenerate, htake, ⟨log, hstore⟩, hreset, rfl⟩ :=
    processRequest_eq_ok hok
  -- what is flushed belongs to others
  have hflushed : Flushed s s₁ := (flushShortResponseStream_meets howner answers.flush).of_eq_ok hflush
  have hmoved := hflushed.clients i
  have hlt₁ : i < s₁.clients.elements.length := hflushed.length ▸ hi
  have hplain₁ := hmoved.plain hplain
  have hqueue₁ : QueueHolds (s₁.client i) [] 0 := hqueue.congr hmoved.sameBooks
  have hcontent₁ : ringContent (s₁.client i).responseStream = [] := by
    rw [← Server.pending_of_not_owns (Server.owns_of_none hflushed.owner i), hflushed.pending i, hpending]
  have hempty₁ : (s₁.client i).responseStream.size = 0 := by
    rw [← hplain₁.stream.length_content, hcontent₁, List.length_nil]
  have hcount₁ : (s₁.client i).responseCount = 0 := hqueue₁.count
  have hmessage₁ : acceptingSocketIsConnection (s₁.client i).acceptingSocket = false := by
    rw [hmoved.identity.acceptingSocket, hmessage]
  -- the entry of the message is the only one in the queue
  obtain ⟨queue, entry, hs₂, rfl, hentry, hchunks, hfirst, hsize⟩ :=
    generateResponse_page hmessage₁ hqueue₁ hpage hgenerate
  have hclient₂ : s₂.client i = { s₁.client i with responseQueue := queue } := by
    rw [hs₂]
    exact Server.client_setClient hlt₁ _
  have hlt₂ : i < s₂.clients.elements.length := by
    rw [hs₂]
    exact hlt₁.trans_eq List.length_set.symm
  -- the request is taken out, and its response is the current one
  obtain ⟨requestStream, hclient⟩ := takeRequest_eq_ok (by rw [hclient₂]; exact hcount₁) htake
  rw [hclient₂] at hclient
  obtain ⟨s₃, hs₃⟩ : ∃ s₃, s₃ = (s₂.emit log).setClient i client := ⟨_, rfl⟩
  have hclient₃ : s₃.client i = client := by
    rw [hs₃]
    exact Server.client_setClient hlt₂ client
  have hlt₃ : i < s₃.clients.elements.length := by
    rw [hs₃]
    exact hlt₂.trans_eq List.length_set.symm
  have hbuffers₃ : s₃.buffers = ⟨page.one, page.two⟩ := by
    rw [hs₃, Server.setClient, Server.emit, hs₂]
  have hssl₃ : (s₃.client i).ssl = false := by
    rw [hclient₃, hclient]
    exact hplain₁.ssl
  have hempty₃ : (s₃.client i).responseStream.size = 0 := by
    rw [hclient₃, hclient]
    exact hempty₁
  -- the text is stored where it is short
  rw [← hs₃, storeResponse_short hssl₃ hempty₃] at hstore
  obtain ⟨-, rfl⟩ := Outcome.ok.inj hstore
  -- the count and the parser are written last
  set s₄ : Server := { s₃ with
    shortResponseStream := .ofBuffers ⟨page.one, page.two⟩
    shortResponseStreamOwner := some (s₃.pointer i) }
  have hclient₄ : s₄.client i = client := hclient₃
  have hssl₄ : client.ssl = false := hclient₃ ▸ hssl₃
  rw [hclient₄, Server.client_setClient (s := s₄) hlt₃, resetParser_ok (by exact hssl₄)] at hreset
  obtain ⟨-, rfl⟩ := Outcome.ok.inj hreset
  rw [hclient₄, Server.setClient_setClient]
  obtain ⟨d, hd⟩ : ∃ d : Client, d = { client with
      responseCount := client.responseCount + 1
      progress := if client.response.keepAlive then .zero else client.progress } := ⟨_, rfl⟩
  rw [← hd]
  rw [hclient] at hd
  have hsame : (s.client i).SameIdentity d := by
    rw [hd]
    exact hmoved.identity.trans ⟨rfl, rfl, rfl, rfl, rfl⟩
  have hbooks : SameBooks { s₁.client i with
      responseQueue := queue, response := response, responseCount := 1 } d := by
    rw [hd]
    exact ⟨rfl, rfl, congrArg (· + 1) hcount₁⟩
  have hstream : d.responseStream = (s₁.client i).responseStream := by rw [hd]
  have hsocket : acceptingSocketIsConnection d.acceptingSocket = false := by
    rw [hsame.acceptingSocket, hmessage]
  -- nothing but the message is pending, and it is all in the short stream
  have howns : (s₄.setClient i d).Owns i := by
    refine Server.Owns.ofShort hlt₃ (hsame.dead.trans hlive) hsocket ?_ ?_ ?_
    · rw [hstream]
      exact hplain₁.stream
    · rw [hstream, hempty₁]
    · exact hbuffers₃ ▸ TextValue.valueSize_ofBuffers _
  have hclient₅ : (s₄.setClient i d).client i = d := Server.client_setClient (s := s₄) hlt₃ d
  refine ⟨⟨howns.lt, ?_, .inr ⟨i, howns⟩, howns.valid⟩,
    ⟨entry, hclient₅.symm ▸ hentry.congr hbooks, hchunks, hfirst, hsize⟩, ?_⟩
  · rw [hclient₅, hsocket]
  · rw [howns.pending_eq]
    show ((TextValue.ofBuffers ⟨page.one, page.two⟩).read s₃.buffers).bytes = _
    rw [hbuffers₃, TextValue.read_ofBuffers]
    rfl

/-! ## From a request to its text -/

/-- A request of a client of Guppy is answered with a text that became a message. However the network behaves,
and in whatever order rounds of the client, datagrams, visits of others and acknowledgements follow, the client
never puts anything else together than this text, and it has all of it when nothing of the message is pending
any more. -/
theorem transferRun_delivers {buffer b : CharBuffer} (hbuffer : buffer.Valid) {random : ℕ}
    (hrandom : 6 + random ≤ 2 ^ 31) (hpayload : 1 ≤ buffer.size) (hsmall : buffer.size < 2 ^ 30)
    {realloc : Realloc} {page : GeneratedPage}
    (hbuilt : guppyInsertMarkers random realloc buffer = .ok (page.firstChunk, page.chunkNumber) b)
    (htext : page.one ++ page.two = b.text) {s t : Server} {i : ℕ} {answers : ProcessAnswers}
    (hi : i < s.clients.elements.length) (howner : s.OwnerInv) (hlive : (s.client i).dead = false)
    (hmessage : acceptingSocketIsConnection (s.client i).acceptingSocket = false)
    (hplain : (s.client i).Plain) (hqueue : QueueHolds (s.client i) [] 0) (hpending : s.pending i = [])
    (hpage : answers.processor.page = .page page) (hok : processRequest i answers s = .ok () t)
    {events : List TransferEvent} {x : Transfer} (hrun : Runs (TransferStep i) ⟨t, [], []⟩ events x) :
    (∀ text, receivedText x.received = some text → text = buffer.text) ∧
      (x.server.pending i = [] → receivedText x.received = some buffer.text) := by
  obtain ⟨hfirst, -, pieces, hpieces, hchunks, hnumber⟩ :=
    (guppyInsertMarkers_spec hbuffer hrandom hpayload hsmall realloc).of_eq_ok hbuilt
  have hlt : buffer.text.length < 2 ^ 30 := by
    rw [CharBuffer.text, List.length_take]
    omega
  have hfirstLe : page.firstChunk ≤ 2 ^ 31 := hfirst ▸ hrandom
  have hle := hpieces.length_pieces_le
  have hfew : page.firstChunk + pieces.length < 2 ^ 32 := by omega
  have hstart := processRequest_startsMessage hi howner hlive hmessage hplain hqueue hpending hpage hok
  rw [htext, hchunks, hnumber] at hstart
  have hnothing : ChunksOf page.firstChunk pieces [] :=
    fun datagram hdatagram => absurd hdatagram List.not_mem_nil
  have hinitial : Transferring page.firstChunk pieces i t ⟨t, [], []⟩ :=
    ⟨⟨[], _, [], hstart.tracked, fun number hnone => absurd hnone List.not_mem_nil⟩, hnothing, hnothing⟩
  have htransferring : Transferring page.firstChunk pieces i t x :=
    hrun.invariant hinitial fun y event z hy hstep => hy.step hpieces hlt hfirstLe hstep
  exact ⟨fun text hassembled => htransferring.received.receivedText_eq hfew hpieces hassembled,
    htransferring.complete hpieces hfew⟩

/-- A client of Guppy whose request, `guppy://h/a`, was parsed. -/
def askingServer : Server :=
  { Server.initial ⟨0, [], 0⟩ with clients := ⟨1, [{ Client.zero with
      acceptingSocket := 16
      cryptographyState := .operational
      requestStream := .holding (ascii "guppy://h/a\r\n") 16
      progress := {
        parser := { Parser.zero with state := .end }
        request := { Request.zero with
          streamSize := 13, method := ⟨8, 1⟩, resource := ⟨9, 2⟩, protocol := ⟨0, 8⟩ } } }], 1⟩ }

/-- The page it is answered with, a message in two chunks. -/
def twoChunksPage : GeneratedPage :=
  ⟨ascii "6 => /a\n7\r\n", [], 6, 2, by decide, by decide, by decide⟩

/-- A datagram of client 0 is received; behind it in the buffer is what is left of the request. -/
def withDatagram (s : Server) (datagram : List UInt8) : Server :=
  { s with
    shortRequestMessage := datagram ++ ascii "py://h/a\r\n"
    shortRequestMessageOwner := some (s.pointer 0)
    shortRequestMessageSize := datagram.length }

/-- Client 0 is sent what can be sent. -/
def sendRound (s : Server) : Outcome ExError Visit Unit :=
  serverSendTraffic 0 100 ⟨⟨.wouldBlock, .wouldBlock⟩, ⟨.wouldBlock, .wouldBlock⟩⟩ ⟨s, .no, true, false⟩

/-- A datagram of client 0 is read. -/
def readDatagram (s : Server) (datagram : List UInt8) : Outcome ExError Visit Unit :=
  serverReceiveDataGuppy 0 grantAll ⟨withDatagram s datagram, .no, true, false⟩

/-- The chunks come in the wrong order, and are acknowledged. -/
theorem transferRun_delivers_six : ∃ t events x,
    processRequest 0 (processAnswersFor (.page twoChunksPage)) askingServer = .ok () t ∧
      Runs (TransferStep 0) ⟨t, [], []⟩ events x ∧ x.server.pending 0 = [] ∧
      receivedText x.received = some (ascii "=> /a\n") := by
  have hall : ((processRequest 0 (processAnswersFor (.page twoChunksPage)) askingServer).returnsIn fun t =>
      getMakesSenseToSend t 0 && (sendRound t).returnsIn fun u =>
        sentSince 0 t u.server == [ascii "6 => /a\n", ascii "7\r\n"] &&
        (readDatagram u.server (ascii "6\r\n")).returnsIn fun v =>
        (readDatagram v.server (ascii "7\r\n")).returnsIn fun w =>
        getMakesSenseToSend w.server 0 && (sendRound w.server).returnsIn fun y =>
        y.server.pending 0 == []) = true := by decide +kernel
  obtain ⟨_, t, ht, hall⟩ := Outcome.exists_of_returnsIn hall
  obtain ⟨hsend, hall⟩ := Bool.and_eq_true_iff.mp hall
  obtain ⟨_, u, hu, hall⟩ := Outcome.exists_of_returnsIn hall
  obtain ⟨hsent, hall⟩ := Bool.and_eq_true_iff.mp hall
  obtain ⟨_, v, hv, hall⟩ := Outcome.exists_of_returnsIn hall
  obtain ⟨_, w, hw, hall⟩ := Outcome.exists_of_returnsIn hall
  obtain ⟨hsend', hall⟩ := Bool.and_eq_true_iff.mp hall
  obtain ⟨_, y, hy, hpending⟩ := Outcome.exists_of_returnsIn hall
  have hsix : IsAcknowledgement (withDatagram u.server (ascii "6\r\n")).datagram 6 :=
    ⟨ascii "6", by decide, by decide, rfl, by decide⟩
  have hseven : IsAcknowledgement (withDatagram v.server (ascii "7\r\n")).datagram 7 :=
    ⟨ascii "7", by decide, by decide, rfl, by decide⟩
  -- what the server has sent after the first round, and what has come after the second datagram
  set sent : List (List UInt8) := [ascii "6 => /a\n", ascii "7\r\n"]
  set received : List (List UInt8) := [] ++ [ascii "7\r\n"] ++ [ascii "6 => /a\n"]
  have hcome : ∀ number ∈ [6, 7], number ∈ (received.map packetOf).map Packet.number := by decide
  have hround : TransferStep 0 ⟨t, [], []⟩ (.served .round) ⟨u.server, sent, []⟩ := by
    have hstep : TransferStep 0 ⟨t, [], []⟩ _ _ :=
      .served rfl (.round (v := ⟨t, .no, true, false⟩) rfl hsend (.inl ⟨_, hu⟩))
    rwa [List.nil_append, beq_iff_eq.mp hsent] at hstep
  have hdatagram : ∀ s datagram, TransferStep 0 ⟨s, sent, received⟩ (.served .other)
      ⟨withDatagram s datagram, sent, received⟩ := by
    intro s datagram
    have hnothing : sentSince 0 s (withDatagram s datagram) = [] :=
      (sentSince_eq (List.append_nil s.effects).symm).trans rfl
    have hstep : TransferStep 0 ⟨s, sent, received⟩ (.served .other)
        ⟨withDatagram s datagram, sent ++ sentSince 0 s (withDatagram s datagram), received⟩ :=
      .served rfl .received
    rwa [hnothing, List.append_nil] at hstep
  have hfirst : TransferStep 0 ⟨withDatagram u.server (ascii "6\r\n"), sent, received⟩ (.acknowledged 6)
      ⟨v.server, sent, received⟩ := .acknowledged rfl (hcome 6 (by decide)) hsix rfl rfl hv
  have hsecond : TransferStep 0 ⟨withDatagram v.server (ascii "7\r\n"), sent, received⟩ (.acknowledged 7)
      ⟨w.server, sent, received⟩ := .acknowledged rfl (hcome 7 (by decide)) hseven rfl rfl hw
  have hlate : TransferStep 0 ⟨u.server, sent, []⟩ (.delivered (ascii "7\r\n"))
      ⟨u.server, sent, [] ++ [ascii "7\r\n"]⟩ := .delivered (List.mem_cons_of_mem _ List.mem_cons_self)
  have hcomplete : TransferStep 0 ⟨u.server, sent, [] ++ [ascii "7\r\n"]⟩ (.delivered (ascii "6 => /a\n"))
      ⟨u.server, sent, received⟩ := .delivered List.mem_cons_self
  have hlast : TransferStep 0 ⟨w.server, sent, received⟩ (.served .round)
      ⟨y.server, sent ++ sentSince 0 w.server y.server, received⟩ :=
    .served rfl (.round (v := ⟨w.server, .no, true, false⟩) rfl hsend' (.inl ⟨_, hy⟩))
  have hrun := Runs.cons hround (.cons hlate (.cons hcomplete (.cons (hdatagram _ _) (.cons hfirst
    (.cons (hdatagram _ _) (.cons hsecond (.cons hlast (.nil _))))))))
  have hbuilt : guppyInsertMarkers 0 grantAll ⟨ascii "=> /a\n" ++ [0, 0], 6, 8⟩
      = .ok (twoChunksPage.firstChunk, twoChunksPage.chunkNumber)
        ⟨ascii "6 => /a\n7\r\n" ++ [0, 0, 0, 0, 0], 11, 16⟩ := by decide +kernel
  have hplain : (askingServer.client 0).Plain :=
    ⟨rfl, rfl, ⟨⟨rfl, by decide, by decide⟩, .inr ⟨4, by decide, rfl⟩⟩, fun hne => absurd rfl hne,
      Ring.zero_valid⟩
  have hqueue : QueueHolds (askingServer.client 0) [] 0 :=
    ⟨Ring.zero_valid, rfl, fun entry hentry => absurd hentry List.not_mem_nil, rfl,
      fun entry hentry => absurd hentry (by simp), fun _ => rfl, by decide⟩
  have hdelivers := transferRun_delivers
    (show CharBuffer.Valid ⟨ascii "=> /a\n" ++ [0, 0], 6, 8⟩ from ⟨rfl, .inl (by decide)⟩) (by decide)
    (by decide) (by decide) hbuilt rfl (by decide) (.inl rfl) rfl rfl hplain hqueue rfl rfl ht hrun
  exact ⟨t, _, _, ht, hrun, beq_iff_eq.mp hpending, hdelivers.2 (beq_iff_eq.mp hpending)⟩

end Twinkleshine
