import Twinkleshine.Server.Acknowledge
import Twinkleshine.Server.Sending
import Mathlib.Data.List.Count

/-!
# Sending a message until it is acknowledged

A message of Guppy is sent in rounds. `server_send_message` goes along the counters of its chunks and
sends those that are not acknowledged, up to four in a round; an acknowledgement overwrites the counter
of its chunk. `Sends` is the state of a client between two rounds, with the counters, and `MessageStep`
what may happen to it.
-/

namespace Twinkleshine

open Library

/-! ## One round -/

/-- The counter of a chunk that is acknowledged is negative. -/
def isAcknowledged (p : UInt8) : Bool := p.toInt8.toInt < 0

/-- The loop hands out four datagrams at most, and says how many chunks are acknowledged unless it left
one behind that is not. -/
theorem sendChunks_outcome (sizes : ChunkSizes) (address : Option Address) (counters : List UInt8)
    (chunk : ℕ) (value : ConstantValue) {sent : ℕ} (acknowledged : ℕ) (done : List UInt8)
    {datagrams : List (List UInt8)} (hsent : datagrams.length = sent)
    (hlt : sent < chunkSendSimultaneous) :
    (sendChunks sizes address counters chunk value sent acknowledged done datagrams).Ensures
      (fun a r => r.datagrams.length ≤ chunkSendSimultaneous ∧
        (a = some (acknowledged + counters.countP isAcknowledged) ∨
          a = none ∧ ∃ p ∈ counters, isAcknowledged p = false))
      fun _ r => r.datagrams.length ≤ chunkSendSimultaneous ∧
        ∃ p ∈ counters, isAcknowledged p = false := by
  -- by induction on the counters; only acknowledged ones are counted
  induction counters generalizing chunk value sent acknowledged done datagrams with
  | nil => exact ⟨hsent.trans_le hlt.le, .inl rfl⟩
  | cons p rest ih =>
    simp only [sendChunks]
    by_cases hrepeats : p.toInt8.toInt < chunkSendRepeats
    swap
    · rw [if_pos hrepeats]
      refine ⟨hsent.trans_le hlt.le, p, List.mem_cons_self, ?_⟩
      simp only [isAcknowledged, decide_eq_false_iff_not]
      omega
    rw [if_neg (not_not.mpr hrepeats)]
    by_cases hnegative : p.toInt8.toInt < 0
    · have hp : isAcknowledged p = true := decide_eq_true hnegative
      rw [if_pos hnegative]
      refine (ih _ _ (acknowledged + 1) _ hsent hlt).mono (fun a r hr => ?_) fun e r hr => ?_
      · refine ⟨hr.1, hr.2.imp (fun ha => ?_) fun ha => ?_⟩
        · rw [ha, List.countP_cons_of_pos hp]
          congr 1
          omega
        · obtain ⟨hnone, q, hq, hfalse⟩ := ha
          exact ⟨hnone, q, List.mem_cons_of_mem p hq, hfalse⟩
      · obtain ⟨hle, q, hq, hfalse⟩ := hr
        exact ⟨hle, q, List.mem_cons_of_mem p hq, hfalse⟩
    · -- a chunk that is still due: it is sent if the address is known
      have hp : isAcknowledged p = false := decide_eq_false hnegative
      have hexists : ∃ q ∈ p :: rest, isAcknowledged q = false := ⟨p, List.mem_cons_self, hp⟩
      have hcount : ∀ n, n + (p :: rest).countP isAcknowledged = n + rest.countP isAcknowledged := by
        intro n
        rw [List.countP_cons_of_neg (by simp [hp])]
      rw [if_neg hnegative]
      rcases address with _ | address
      · refine (ih _ _ acknowledged _ hsent hlt).mono (fun a r hr => ?_) fun e r hr => ⟨hr.1, hexists⟩
        exact ⟨hr.1, hr.2.imp (fun ha => ha.trans (congrArg some (hcount _).symm))
          fun ha => ⟨ha.1, hexists⟩⟩
      · dsimp only
        split_ifs with hstop
        · refine ⟨?_, .inr ⟨rfl, hexists⟩⟩
          rw [List.length_append, hsent]
          exact hstop.le
        · have hlength : (datagrams ++ [valueToContinuous
              (valueFirstSecond value (sizes.size chunk)).2]).length = sent + 1 := by
            rw [List.length_append, hsent]
            rfl
          refine (ih _ _ acknowledged _ hlength (by omega)).mono (fun a r hr => ?_)
            fun e r hr => ⟨hr.1, hexists⟩
          exact ⟨hr.1, hr.2.imp (fun ha => ha.trans (congrArg some (hcount _).symm))
            fun ha => ⟨ha.1, hexists⟩⟩

/-- The message is finished when all of its chunks are acknowledged. -/
theorem serverSendMessage_outcome (value : ConstantValue) (address : Option Address) (firstChunk : ℕ)
    {counters : List UInt8} (hcounters : counters.length < 2 ^ 32) (lastChunkSize : ℕ) :
    (serverSendMessage value address firstChunk counters lastChunkSize).Ensures
      (fun _ r => r.datagrams.length ≤ chunkSendSimultaneous ∧
        (r.finished = true ↔ ∀ p ∈ counters, isAcknowledged p = true))
      fun _ r => r.datagrams.length ≤ chunkSendSimultaneous ∧
        ¬ ∀ p ∈ counters, isAcknowledged p = true := by
  have hnot : (∃ p ∈ counters, isAcknowledged p = false) →
      ¬ ∀ p ∈ counters, isAcknowledged p = true := by
    rintro ⟨p, hp, hfalse⟩ hall
    exact absurd (hall p hp) (by simp [hfalse])
  have hmod : counters.length % uintModulus = counters.length := Nat.mod_eq_of_lt hcounters
  have hloop := sendChunks_outcome (ChunkSizes.of (valueSize value) firstChunk
    (counters.length % uintModulus) lastChunkSize) address counters firstChunk value 0 []
    (List.length_nil (α := List UInt8)) (by decide)
  rw [serverSendMessage]
  refine hloop.andThen (fun a r hr => ⟨hr.1, ?_⟩) fun e r hr => ⟨hr.1, hnot hr.2⟩
  simp only [hmod, decide_eq_true_eq]
  obtain ⟨-, rfl | ⟨rfl, hexists⟩⟩ := hr
  · rw [Nat.zero_add, Option.some.injEq]
    exact List.countP_eq_length
  · exact iff_of_false (by simp) (hnot hexists)

/-! ## The entry of a message -/

/-- The entry with other counters. -/
def ResponseEntry.withChunks (entry : ResponseEntry) (counters : List UInt8) : ResponseEntry :=
  { entry with chunks := counters }

section

variable {entry : ResponseEntry} {counters : List UInt8} {client : Client}

theorem ResponseEntry.WellFormed.withChunks (h : entry.WellFormed)
    (hlength : counters.length = entry.chunks.length) : (entry.withChunks counters).WellFormed := by
  refine ⟨h.small, h.method, h.resource, h.protocol, ?_, ?_⟩
  · rw [ResponseEntry.withChunks]
    dsimp only
    rw [hlength, h.chunks]
  · rw [ResponseEntry.words, ResponseEntry.withChunks]
    simp only [List.length_append, hlength]
    rw [h.size, ResponseEntry.words]
    simp only [List.length_append]

/-- Where the counters stand in an entry. -/
def ResponseEntry.front (entry : ResponseEntry) : List UInt8 :=
  entry.response.encode ++ (entry.method ++ entry.resource ++ entry.protocol)

theorem ResponseEntry.bytes_eq (entry : ResponseEntry) :
    entry.bytes = entry.front ++ entry.chunks := by
  simp only [ResponseEntry.bytes, ResponseEntry.words, ResponseEntry.front, List.append_assoc]

theorem ResponseEntry.WellFormed.length_front (h : entry.WellFormed) :
    entry.front.length = sizeofResponse + entry.response.chunks.offset := by
  simp only [ResponseEntry.front, List.length_append, Response.length_encode, h.chunks]

/-- The counters are where the sender and the acknowledgements look for them. -/
theorem QueueHolds.counters_eq {part : ℕ} (h : QueueHolds client [entry] part) :
    entry.front.length = sizeofResponse + client.response.chunks.offset ∧
      entry.chunks.length = client.response.chunks.size ∧
      ringContent client.responseQueue = entry.front ++ entry.chunks := by
  obtain ⟨hwell, -⟩ := h.wellFormed entry List.mem_cons_self
  obtain ⟨hresponse, -⟩ := h.head entry rfl
  refine ⟨?_, ?_, ?_⟩
  · rw [hwell.length_front, hresponse]
  · rw [hresponse, hwell.chunks]
  · rw [h.content, List.flatMap_singleton, entry.bytes_eq]

/-- Writing the counters keeps the books. -/
theorem QueueHolds.withChunks {queue : Ring} (h : QueueHolds client [entry] 0)
    (hqueue : queue.Valid) (hlength : counters.length = entry.chunks.length)
    (hcontent : ringContent queue = entry.front ++ counters) :
    QueueHolds { client with responseQueue := queue } [entry.withChunks counters] 0 := by
  obtain ⟨hwell, hsilent⟩ := h.wellFormed entry List.mem_cons_self
  refine ⟨hqueue, ?_, ?_, h.count, ?_, fun _ => rfl, h.chunks⟩
  · rw [List.flatMap_singleton, ResponseEntry.bytes_eq]
    exact hcontent
  · intro e he
    rw [List.mem_singleton.mp he]
    exact ⟨hwell.withChunks hlength, hsilent⟩
  · intro e he
    obtain rfl := Option.some.inj he
    exact h.head entry rfl

end

/-! ## The client of a message -/

/-- A client of a message-based protocol that can be served. -/
structure Server.Messages (s : Server) (i : ℕ) : Prop where
  lt : i < s.clients.elements.length
  unconnected : acceptingSocketIsConnection (s.client i).acceptingSocket = false
  owner : s.OwnerInv
  valid : (s.client i).responseStream.Valid

/-- A message is pending for a client. Its entry is the only one of the queue, with these counters. -/
structure Sends (firstChunk : ℕ) (pieces : List (List UInt8)) (i : ℕ) (s : Server)
    (counters : List UInt8) : Prop extends Server.Messages s i where
  entry : ∃ entry, QueueHolds (s.client i) [entry] 0 ∧ entry.chunks = counters ∧
    entry.response.firstChunk = firstChunk ∧
    entry.response.streamSize = (message firstChunk pieces).length
  pending : s.pending i = message firstChunk pieces
  length : counters.length = pieces.length

/-- A client that has nothing pending, and no response in its queue. -/
structure Emptied (i : ℕ) (s : Server) : Prop extends Server.Messages s i where
  queue : QueueHolds (s.client i) [] 0
  pending : s.pending i = []

section

variable {firstChunk i : ℕ} {pieces : List (List UInt8)} {s t : Server} {counters : List UInt8}

namespace SameOutput

theorem messages (h : SameOutput s t) (hs : s.Messages i) : t.Messages i := by
  obtain ⟨hsame, hstream⟩ := h.clients i
  refine ⟨h.length ▸ hs.lt, ?_, h.ownerInv hs.owner, hstream ▸ hs.valid⟩
  rw [hsame.acceptingSocket, hs.unconnected]

/-- What is pending stays pending when the books of its client do not change. -/
theorem sends (h : SameOutput s t) (hbooks : SameBooks (s.client i) (t.client i))
    (hs : Sends firstChunk pieces i s counters) : Sends firstChunk pieces i t counters := by
  obtain ⟨entry, hqueue, hentry⟩ := hs.entry
  exact ⟨h.messages hs.toMessages, ⟨entry, hqueue.congr hbooks, hentry⟩,
    (h.pending i).trans hs.pending, hs.length⟩

theorem emptied (h : SameOutput s t) (hbooks : SameBooks (s.client i) (t.client i))
    (hs : Emptied i s) : Emptied i t :=
  ⟨h.messages hs.toMessages, hs.queue.congr hbooks, (h.pending i).trans hs.pending⟩

end SameOutput

/-- Where the message is kept. -/
theorem Sends.holds (h : Sends firstChunk pieces i s counters) :
    (s.Owns i ∧ (s.shortResponseStream.read s.buffers).bytes = message firstChunk pieces) ∨
      (s.owns i = false ∧
        ringContent (s.client i).responseStream = message firstChunk pieces) := by
  have hpending := h.pending
  rcases howns : s.owns i with _ | _
  · rw [Server.pending_of_not_owns howns] at hpending
    exact .inr ⟨rfl, hpending⟩
  · obtain ⟨k, hk⟩ := h.owner.resolve_left fun hnone => by
      rw [Server.owns_of_none hnone] at howns
      cases howns
    obtain rfl : i = k := (hk.owns_eq i).mp howns
    rw [hk.pending_eq] at hpending
    exact .inl ⟨hk, hpending⟩

/-- The counters are what the sender reads and the acknowledgements write. -/
theorem Sends.counters_eq (h : Sends firstChunk pieces i s counters) :
    segment (ringContent (s.client i).responseQueue) (chunkCounters s i) false = counters ∧
      (chunkCounters s i).limit ≤ (s.client i).responseQueue.size ∧
      (s.client i).response.firstChunk = firstChunk ∧
      (s.client i).response.chunks.size = pieces.length := by
  obtain ⟨entry, hqueue, rfl, hfirst, -⟩ := h.entry
  obtain ⟨hfront, hchunks, hcontent⟩ := hqueue.counters_eq
  obtain ⟨hresponse, -⟩ := hqueue.head entry rfl
  have hlength := hqueue.valid.length_content
  rw [hcontent, List.length_append] at hlength
  refine ⟨?_, ?_, ?_, hchunks.symm.trans h.length⟩
  · rw [hcontent, segment, ValueLocation.start, if_neg Bool.false_ne_true, chunkCounters,
      ← hfront, ← hchunks, List.drop_left, List.take_length]
  · rw [chunkCounters, ValueLocation.limit, ← hlength, hfront, hchunks]
  · rw [hresponse, ← hfirst]

theorem IsMessage.length_message_pos {payload : List UInt8}
    (h : IsMessage firstChunk payload pieces) : 0 < (message firstChunk pieces).length := by
  have hlast := h.length_last
  rw [h.length_message]
  omega

/-! ## What is sent in a round -/

/-- From `s` to `t` client `i` was sent the chunks `ks`, four at most, and the counters of these were
incremented. -/
structure ChunksSent (firstChunk : ℕ) (pieces : List (List UInt8)) (i : ℕ) (s t : Server)
    (counters : List UInt8) (ks : List ℕ) (newCounters : List UInt8) : Prop where
  sent : SentChunks firstChunk pieces 0 counters ks (ks.map (chunkAt firstChunk pieces)) newCounters
  few : ks.length ≤ chunkSendSimultaneous
  told : t.effects = s.effects
    ++ (ks.map (chunkAt firstChunk pieces)).map (.sentTo (s.client i).birth)
  output : SameOutput s t
  sends : Sends firstChunk pieces i t newCounters

/-- The counters that `server_send_message` returns are written to the queue. -/
theorem Sends.afterMessage (h : Sends firstChunk pieces i s counters) {chunks : MutableValue}
    (hview : RingView (s.client i).responseQueue (chunkCounters s i) false chunks)
    (lastChunkSent : ℤ) {r : Messaging} {ks : List ℕ}
    (hsent : SentChunks firstChunk pieces 0 counters ks r.datagrams r.chunks)
    (hfew : r.datagrams.length ≤ chunkSendSimultaneous) :
    ChunksSent firstChunk pieces i s (s.afterMessage i chunks lastChunkSent r) counters ks
      r.chunks := by
  obtain ⟨-, hlimit, hfirst, hsize⟩ := h.counters_eq
  obtain ⟨entry, hqueue, hchunks, hentry⟩ := h.entry
  obtain ⟨hfront, hcount, hcontent⟩ := hqueue.counters_eq
  have hlength : r.chunks.length = counters.length := by
    rw [hsent.counters_eq, List.length_mapIdx]
  have hlocation : r.chunks.length = (chunkCounters s i).size := by
    rw [hlength, h.length, chunkCounters, hsize]
  have hwritten := hview.content_write r.chunks hlocation
  have hoverwrite : overwrite (entry.front ++ entry.chunks) entry.front.length r.chunks
      = entry.front ++ r.chunks := by
    rw [overwrite, List.take_left, List.drop_eq_nil_of_le, List.append_nil]
    rw [List.length_append, hlength, hchunks]
  rw [ValueLocation.start, if_neg Bool.false_ne_true, hcontent, chunkCounters, ← hfront,
    hoverwrite] at hwritten
  have hkept := (hqueue.withChunks (hview.valid_write hqueue.valid hlocation)
    (hlength.trans (congrArg List.length hchunks.symm)) hwritten)
  have hclient : (s.afterMessage i chunks lastChunkSent r).client i = { s.client i with
      responseQueue := (s.client i).responseQueue.write chunks r.chunks
      lastChunkSent := lastChunkSent } := Server.client_setClient h.lt _
  have houtput : SameOutput s (s.afterMessage i chunks lastChunkSent r) := by
    refine SameOutput.setClient (d := { s.client i with
      responseQueue := (s.client i).responseQueue.write chunks r.chunks
      lastChunkSent := lastChunkSent }) h.lt ?_ rfl _
    exact ⟨rfl, rfl, rfl, rfl, rfl⟩
  have hdatagrams := hsent.datagrams_eq
  refine ⟨hdatagrams ▸ hsent, ?_, ?_, houtput, houtput.messages h.toMessages, ?_, ?_, ?_⟩
  · rwa [hdatagrams, List.length_map] at hfew
  · rw [← hdatagrams]
    rfl
  · refine ⟨entry.withChunks r.chunks, ?_, rfl, hentry⟩
    rw [hclient]
    exact hkept.congr ⟨rfl, rfl, rfl⟩
  · exact (houtput.pending i).trans h.pending
  · rw [hlength, h.length]

/-- A round of `server_send_message` on the message of client `i`, whether it returns or fails. The value
is the size of the message when all chunks are acknowledged, and else zero. -/
theorem Sends.sendsChunks {v : Visit} (h : Sends firstChunk pieces i v.server counters)
    {payload : List UInt8} (hmessage : IsMessage firstChunk payload pieces)
    (hpayload : payload.length < 2 ^ 30) (hfirst : firstChunk ≤ 2 ^ 31) {stream : ConstantValue}
    (hstream : stream.bytes = message firstChunk pieces) (now : ℤ)
    (answers : SendAnswer × SendAnswer) (advance : ℕ → Server → Server) :
    (sendValue i now answers advance stream v).Ensures
      (fun sent w => ∃ t ks newCounters,
        ChunksSent firstChunk pieces i v.server t counters ks newCounters ∧
          w.server = advance sent t ∧ w.flags.saturated = true ∧
          sent = if counters.all isAcknowledged then (message firstChunk pieces).length else 0)
      fun _ w => ∃ ks newCounters,
        ChunksSent firstChunk pieces i v.server w.server counters ks newCounters ∧
          counters.all isAcknowledged = false := by
  obtain ⟨hcounters, hlimit, hfirstChunk, hsize⟩ := h.counters_eq
  have hqueue : (v.server.client i).responseQueue.Valid := by
    obtain ⟨entry, hqueue, -⟩ := h.entry
    exact hqueue.valid
  have hpos : 1 ≤ pieces.length := Nat.le_of_succ_le hmessage.two_le
  have hle := hmessage.length_pieces_le
  have hsmall : firstChunk + pieces.length < 2 ^ 32 := by omega
  have hlength := h.length
  obtain ⟨chunks, address, lastChunkSent, hview, heq⟩ := sendMessage_eq hqueue hlimit hfirstChunk
    hsize hpos hsmall now advance stream
  have hstep : sendValue i now answers advance stream v = sendMessage i now advance stream v := by
    rw [sendValue, if_neg (by rw [h.unconnected]; exact Bool.false_ne_true)]
  rw [hstep, heq, hcounters]
  have hspec := serverSendMessage_spec hmessage hpayload hfirst hstream address hlength
  have houtcome := serverSendMessage_outcome stream address firstChunk
    (show counters.length < 2 ^ 32 by omega) ((decimal (firstChunk + (pieces.length - 1))).length + 2)
  refine (hspec.and houtcome).handle (fun _ r hr => ?_) fun _ r hr => ?_
  · obtain ⟨⟨ks, hsent⟩, hfew, hfinished⟩ := hr
    refine ⟨_, ks, r.chunks, h.afterMessage hview lastChunkSent hsent hfew, rfl, rfl, ?_⟩
    rw [valueSize_eq, hstream]
    exact if_congr (hfinished.trans List.all_eq_true.symm) rfl rfl
  · obtain ⟨⟨ks, hsent⟩, hfew, hunfinished⟩ := hr
    refine ⟨ks, r.chunks, h.afterMessage hview _ hsent hfew, ?_⟩
    rw [Bool.eq_false_iff]
    exact fun hall => hunfinished (List.all_eq_true.mp hall)

/-! ## The message is popped -/

/-- Nothing is popped where nothing was sent. -/
theorem serverPopResponses_zero (i : ℕ) (now : ℤ) (s : Server) :
    serverPopResponses i now 0 s = .ok () s := by
  rw [serverPopResponses, popResponsesLoop, if_neg (Nat.lt_irrefl 0), Outcome.mapState_ok,
    Server.setClient_client, List.append_nil]

/-- The only response is popped when all of it was sent. -/
theorem serverPopResponses_whole {entry : ResponseEntry} (h : QueueHolds (s.client i) [entry] 0)
    (hpos : 0 < entry.response.streamSize) (now : ℤ) :
    ∃ client, serverPopResponses i now entry.response.streamSize s
        = .ok () { s.setClient i client with
            effects := s.effects ++ poppedEffects (s.client i).birth [entry] } ∧
      QueueHolds client [] 0 ∧ (s.client i).SameIdentity client ∧
      client.responseStream = (s.client i).responseStream := by
  have htotal : totalSize [entry] = entry.response.streamSize := Nat.add_zero _
  obtain ⟨gone, rest, queue, response, part, hentries, hloop, hqueue, hsum⟩ :=
    popResponsesLoop_spec now _ _ h (by rw [htotal, Nat.zero_add]) h.length_lt []
  rcases rest with _ | ⟨other, rest⟩
  · rw [List.append_nil] at hentries
    subst hentries
    obtain rfl : part = 0 := hqueue.part_of_nil rfl
    refine ⟨_, ?_, hqueue, ⟨rfl, rfl, rfl, rfl, rfl⟩, rfl⟩
    rw [serverPopResponses, hloop, Outcome.mapState_ok, List.nil_append]
  · -- the entry would be left although all of it is gone
    exfalso
    obtain ⟨rfl, rfl, rfl⟩ : gone = [] ∧ other = entry ∧ rest = [] := by
      rcases gone with _ | ⟨first, gone⟩
      · rw [List.nil_append, List.cons.injEq] at hentries
        exact ⟨rfl, hentries.1.symm, hentries.2.symm⟩
      · have hlength := congrArg List.length hentries
        simp at hlength
    obtain ⟨-, hpart⟩ := hqueue.head other rfl
    have hgone : totalSize [] = 0 := rfl
    omega

theorem ringPop_zero {ring : Ring} (hpos : 0 < ring.size) : ringPop ring 0 = .ok () ring := by
  rw [ringPop, if_pos (Nat.zero_le _)]
  simp only [Nat.zero_le, if_true, Nat.add_zero, Nat.sub_zero, if_neg hpos.ne']

/-! ## A round -/

/-- In a round the chunks `ks` were sent. The message is still to be sent, with the new counters, or all
of its chunks are acknowledged, and it was popped. -/
structure RoundMade (firstChunk : ℕ) (pieces : List (List UInt8)) (i : ℕ) (s t : Server)
    (counters : List UInt8) (ks : List ℕ) (newCounters : List UInt8) : Prop where
  sent : SentChunks firstChunk pieces 0 counters ks (ks.map (chunkAt firstChunk pieces)) newCounters
  few : ks.length ≤ chunkSendSimultaneous
  told : ∃ popped, t.effects = s.effects
    ++ (ks.map (chunkAt firstChunk pieces)).map (.sentTo (s.client i).birth)
    ++ poppedEffects (s.client i).birth popped
  birth : (t.client i).birth = (s.client i).birth
  left : if counters.all isAcknowledged then Emptied i t else Sends firstChunk pieces i t newCounters

section

variable {ks : List ℕ} {newCounters : List UInt8}

/-- While not all chunks are acknowledged, nothing is popped. -/
theorem ChunksSent.unfinished (h : ChunksSent firstChunk pieces i s t counters ks newCounters)
    (hall : counters.all isAcknowledged = false) :
    RoundMade firstChunk pieces i s t counters ks newCounters := by
  refine ⟨h.sent, h.few, ⟨[], h.told.trans (List.append_nil _).symm⟩, (h.output.clients i).1.birth, ?_⟩
  rw [hall, if_neg Bool.false_ne_true]
  exact h.sends

/-- When all chunks are acknowledged and the message is taken out of where it was kept, its response is
popped. -/
theorem ChunksSent.finished {u : Server}
    (h : ChunksSent firstChunk pieces i s t counters ks newCounters)
    (hall : counters.all isAcknowledged = true) (hpos : 0 < (message firstChunk pieces).length)
    (hmessages : u.Messages i) (hpending : u.pending i = []) (heffects : u.effects = t.effects)
    (hidentity : (t.client i).SameIdentity (u.client i)) (hbooks : SameBooks (t.client i) (u.client i))
    (now : ℤ) :
    ∃ w, serverPopResponses i now (message firstChunk pieces).length u = .ok () w ∧
      RoundMade firstChunk pieces i s w counters ks newCounters := by
  obtain ⟨entry, hqueue, -, -, hsize⟩ := h.sends.entry
  have hbirth : (u.client i).birth = (s.client i).birth :=
    hidentity.birth.trans (h.output.clients i).1.birth
  obtain ⟨client, hpop, hpopped, hsame, hstream⟩ :=
    serverPopResponses_whole (hqueue.congr hbooks) (hsize ▸ hpos) now
  rw [hsize] at hpop
  have houtput : SameOutput u { u.setClient i client with
      effects := u.effects ++ poppedEffects (u.client i).birth [entry] } :=
    .setClient hmessages.lt hsame hstream _
  have hclient : (u.setClient i client).client i = client :=
    Server.client_setClient hmessages.lt client
  refine ⟨_, hpop, h.sent, h.few, ⟨[entry], ?_⟩, (houtput.clients i).1.birth.trans hbirth, ?_⟩
  · rw [heffects, h.told, hbirth]
  · rw [hall, if_pos rfl]
    refine ⟨houtput.messages hmessages, ?_, (houtput.pending i).trans hpending⟩
    exact Eq.mpr (congrArg (QueueHolds · [] 0) hclient) hpopped

end

section

variable {v : Visit} {payload : List UInt8}

/-- A round while the message is in the short response stream. -/
theorem Sends.short (h : Sends firstChunk pieces i v.server counters)
    (hmessage : IsMessage firstChunk payload pieces) (hpayload : payload.length < 2 ^ 30)
    (hfirst : firstChunk ≤ 2 ^ 31) (howns : v.server.Owns i)
    (hbytes : (v.server.shortResponseStream.read v.server.buffers).bytes
      = message firstChunk pieces) (now : ℤ) (answers : SendAnswer × SendAnswer) :
    (serverSendShortResponseStream i now answers v).Ensures
      (fun _ w => w.flags.saturated = true ∧ ∃ ks newCounters,
        RoundMade firstChunk pieces i v.server w.server counters ks newCounters)
      fun _ w => ∃ ks newCounters,
        RoundMade firstChunk pieces i v.server w.server counters ks newCounters := by
  have hpos := hmessage.length_message_pos
  have hsize : v.server.shortResponseStream.size = (message firstChunk pieces).length := by
    rw [← howns.readable, valueSize_eq, hbytes]
  unfold serverSendShortResponseStream
  refine (h.sendsChunks hmessage hpayload hfirst hbytes now answers advanceShort).andThen
    (fun sent w hw => ?_) fun _ w hw => ?_
  swap
  · obtain ⟨ks, newCounters, hsent, hall⟩ := hw
    exact ⟨ks, newCounters, hsent.unfinished hall⟩
  obtain ⟨t, ks, newCounters, hsent, hserver, hsaturated, rfl⟩ := hw
  have hsame : t.shortResponseStream.size = (message firstChunk pieces).length := by
    rw [hsent.output.stream, hsize]
  rcases hall : counters.all isAcknowledged with _ | _
  · -- the message stays where it is
    have hadvance : advanceShort 0 t = t := by
      rw [advanceShort, TextValue.advance_zero]
    rw [hall, if_neg Bool.false_ne_true, hadvance] at hserver
    rw [if_neg Bool.false_ne_true, if_neg (by rw [hserver, hsame]; exact hpos.ne'), Visit.onServer,
      serverPopResponses_zero]
    exact ⟨hsaturated, ks, newCounters, hserver ▸ hsent.unfinished hall⟩
  · rw [hall, if_pos rfl] at hserver
    have hempty : w.server.shortResponseStream.size = 0 := by
      rw [hserver, advanceShort, TextValue.size_advance _ hsame.ge, hsame, Nat.sub_self]
    -- the short response stream is given up
    obtain ⟨u, hu⟩ : ∃ u : Server, u = { w.server with shortResponseStreamOwner := none } := ⟨_, rfl⟩
    have hnone : u.shortResponseStreamOwner = none := by rw [hu]
    have hclient : u.client i = t.client i := by
      rw [hu, hserver]
      rfl
    have hmessages : u.Messages i := by
      refine ⟨?_, ?_, .inl hnone, ?_⟩
      · rw [hu, hserver]
        exact hsent.sends.lt
      · rw [hclient]
        exact hsent.sends.unconnected
      · rw [hclient]
        exact hsent.sends.valid
    have hpending : u.pending i = [] := by
      rw [Server.pending_of_not_owns (Server.owns_of_none hnone i), hclient,
        (hsent.output.clients i).2]
      exact howns.content_eq_nil
    have heffects : u.effects = t.effects := by
      rw [hu, hserver]
      rfl
    obtain ⟨x, hpop, hround⟩ := hsent.finished hall hpos hmessages hpending heffects
      (hclient ▸ .refl _) (hclient ▸ ⟨rfl, rfl, rfl⟩) now
    rw [if_pos rfl, if_pos hempty, Visit.onServer]
    dsimp only
    rw [← hu, hpop]
    exact ⟨hsaturated, ks, newCounters, hround⟩

/-- A round while the message is in the stream of its client. -/
theorem Sends.long (h : Sends firstChunk pieces i v.server counters)
    (hmessage : IsMessage firstChunk payload pieces) (hpayload : payload.length < 2 ^ 30)
    (hfirst : firstChunk ≤ 2 ^ 31) (howns : v.server.owns i = false)
    (hbytes : ringContent (v.server.client i).responseStream = message firstChunk pieces) (now : ℤ)
    (answers : SendAnswer × SendAnswer) :
    (serverSendLongOutputBuffer i now answers v).Ensures
      (fun _ w => ∃ ks newCounters,
        RoundMade firstChunk pieces i v.server w.server counters ks newCounters)
      fun _ w => ∃ ks newCounters,
        RoundMade firstChunk pieces i v.server w.server counters ks newCounters := by
  have hpos := hmessage.length_message_pos
  have hstream : ((ringGetAll (v.server.client i).responseStream).read
      (v.server.client i).responseStream.p).bytes = message firstChunk pieces := by
    rw [(ringGetAll_spec h.valid.toSound).1, hbytes]
  unfold serverSendLongOutputBuffer
  refine (h.sendsChunks hmessage hpayload hfirst hstream now answers fun _ s => s).andThen
    (fun sent w hw => ?_) fun _ w hw => ?_
  swap
  · obtain ⟨ks, newCounters, hsent, hall⟩ := hw
    exact ⟨ks, newCounters, hsent.unfinished hall⟩
  obtain ⟨t, ks, newCounters, hsent, rfl, hsaturated, rfl⟩ := hw
  have hsame := (hsent.output.clients i).2
  have hlength : (w.server.client i).responseStream.size = (message firstChunk pieces).length := by
    rw [hsame, ← h.valid.length_content, hbytes]
  rcases hall : counters.all isAcknowledged with _ | _
  · -- the message stays where it is
    rw [if_neg Bool.false_ne_true, Visit.onServer, popLong_ok (ringPop_zero (hlength ▸ hpos)),
      Outcome.mapState_ok, Outcome.andThen_ok, Visit.onServer]
    have hkept : w.server.setClient i { w.server.client i with
        responseStream := (w.server.client i).responseStream } = w.server :=
      w.server.setClient_client i
    rw [hkept, serverPopResponses_zero]
    exact ⟨ks, newCounters, hsent.unfinished hall⟩
  · -- the whole message was acknowledged: it is popped, and its response with it
    obtain ⟨_, stream, hpop, hvalid, hcontent, -⟩ := ((ringPop_spec hsent.sends.valid
      (message firstChunk pieces).length).mono (fun _ _ hr => hr)
        fun _ _ hr => absurd hr.2 (by omega)).exists_ok
    rw [hsame, hbytes, List.drop_length] at hcontent
    obtain ⟨u, hu⟩ : ∃ u : Server, u = w.server.setClient i
      { w.server.client i with responseStream := stream } := ⟨_, rfl⟩
    have hclient : u.client i = { w.server.client i with responseStream := stream } := by
      rw [hu]
      exact Server.client_setClient hsent.sends.lt _
    have hnot : w.server.owns i = false := by
      rw [← howns, Server.owns, Server.owns, hsent.output.owner, Server.pointer, Server.pointer,
        hsent.output.block]
    have hmessages : u.Messages i := by
      refine ⟨?_, ?_, ?_, ?_⟩
      · rw [hu, Server.clients_setClient, List.length_set]
        exact hsent.sends.lt
      · rw [hclient]
        exact hsent.sends.unconnected
      · rw [hu]
        exact hsent.sends.owner.setClient_of_not_owns hnot _
      · rw [hclient]
        exact hvalid
    have hpending : u.pending i = [] := by
      rw [Server.pending_of_not_owns (by rw [hu]; exact hnot), hclient]
      exact hcontent
    obtain ⟨x, hpopped, hround⟩ := hsent.finished hall hpos hmessages hpending (by rw [hu]; rfl)
      (hclient ▸ ⟨rfl, rfl, rfl, rfl, rfl⟩) (hclient ▸ ⟨rfl, rfl, rfl⟩) now
    rw [if_pos rfl, Visit.onServer, popLong_ok hpop, Outcome.mapState_ok, Outcome.andThen_ok,
      Visit.onServer]
    dsimp only
    rw [← hu, hpopped]
    exact ⟨ks, newCounters, hround⟩

/-- The time that is noted at the end of a round does not matter. -/
theorem RoundMade.noted {ks : List ℕ} {newCounters : List UInt8}
    (h : RoundMade firstChunk pieces i s t counters ks newCounters)
    (hi : i < t.clients.elements.length) (now : ℤ) :
    RoundMade firstChunk pieces i s
      (t.setClient i { t.client i with lastResponseStreamNotFull := now }) counters ks newCounters := by
  have hclient := Server.client_setClient hi { t.client i with lastResponseStreamNotFull := now }
  have houtput : SameOutput t (t.setClient i { t.client i with lastResponseStreamNotFull := now }) :=
    .setClient (d := { t.client i with lastResponseStreamNotFull := now }) hi
      ⟨rfl, rfl, rfl, rfl, rfl⟩ rfl t.effects
  have hbooks : SameBooks (t.client i)
      ((t.setClient i { t.client i with lastResponseStreamNotFull := now }).client i) := by
    rw [hclient]
    exact ⟨rfl, rfl, rfl⟩
  refine ⟨h.sent, h.few, h.told, (houtput.clients i).1.birth.trans h.birth, ?_⟩
  have hleft := h.left
  split_ifs at hleft ⊢
  · exact houtput.emptied hbooks hleft
  · exact houtput.sends hbooks hleft

theorem RoundMade.lt {ks : List ℕ} {newCounters : List UInt8}
    (h : RoundMade firstChunk pieces i s t counters ks newCounters) :
    i < t.clients.elements.length := by
  have hleft := h.left
  split_ifs at hleft
  · exact hleft.lt
  · exact hleft.lt

/-- What `server_send_traffic` does to a client that a message is pending for, whether it returns or
fails. -/
theorem Sends.traffic (h : Sends firstChunk pieces i v.server counters)
    (hmessage : IsMessage firstChunk payload pieces) (hpayload : payload.length < 2 ^ 30)
    (hfirst : firstChunk ≤ 2 ^ 31) (hsaturated : v.flags.saturated = false) (now : ℤ)
    (answers : SendAnswers) :
    (serverSendTraffic i now answers v).Keeps fun w => ∃ ks newCounters,
      RoundMade firstChunk pieces i v.server w.server counters ks newCounters := by
  have hend : ∀ (w : Visit) (size : ℕ), (∃ ks newCounters,
      RoundMade firstChunk pieces i v.server w.server counters ks newCounters) →
      (if size + (w.server.client i).responseStream.size < maxResponseStreamSize then
        (.ok () { w with server := (w.server.setClient i
          { w.server.client i with lastResponseStreamNotFull := now }) } : Outcome ExError Visit Unit)
      else .ok () w).Keeps fun w => ∃ ks newCounters,
        RoundMade firstChunk pieces i v.server w.server counters ks newCounters := by
    rintro w size ⟨ks, newCounters, hround⟩
    split_ifs
    · exact ⟨ks, newCounters, hround.noted hround.lt now⟩
    · exact ⟨ks, newCounters, hround⟩
  unfold serverSendTraffic
  rcases h.holds with ⟨howns, hbytes⟩ | ⟨howns, hbytes⟩
  · rw [if_pos ((howns.owns_eq i).mpr rfl)]
    have hshort : ((serverSendShortResponseStream i now answers.short v).andThen fun _ v =>
        .ok v.server.shortResponseStream.size v).Meets True
        (fun _ w => w.flags.saturated = true ∧ ∃ ks newCounters,
          RoundMade firstChunk pieces i v.server w.server counters ks newCounters)
        fun _ w => ∃ ks newCounters,
          RoundMade firstChunk pieces i v.server w.server counters ks newCounters := by
      refine ((h.short hmessage hpayload hfirst howns hbytes now answers.short).meets True).andThen
        (fun _ w hw => hw) fun _ _ hw => hw
    refine hshort.andThen (fun size w hw => ?_) fun _ _ hw => hw
    rw [if_neg (by simp [hw.1])]
    exact hend w size hw.2
  · have hsize : (v.server.client i).responseStream.size > 0 := by
      rw [← h.valid.length_content, hbytes]
      exact hmessage.length_message_pos
    rw [howns, if_neg Bool.false_ne_true, Outcome.andThen_ok, if_pos ⟨hsaturated, hsize⟩]
    have hlong := (h.long hmessage hpayload hfirst howns hbytes now answers.long).meets True
    exact hlong.andThen (fun _ w hw => hend w 0 hw) fun _ _ hw => hw

end

end

end Twinkleshine
