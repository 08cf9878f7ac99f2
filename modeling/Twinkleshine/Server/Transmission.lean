import Twinkleshine.Server.Chunks
import Twinkleshine.Library.Transition
import Mathlib.Data.List.Nodup

/-!
# Every chunk is sent a few times, until it is acknowledged

`MessageStep` is what may happen to a client while a message is pending for it: a round, in which chunks
are sent or not, an acknowledgement that is accepted, and whatever happens to others. `Tracked` says
after a run that the counter of a chunk is how often the chunk was sent, as long as it is not
acknowledged.
-/

namespace Twinkleshine

open Library

/-! ## Counters and numbers -/

/-- A byte as a signed number. -/
theorem toInt8_eq (p : UInt8) :
    p.toInt8.toInt = if p.toNat < 128 then (p.toNat : ℤ) else p.toNat - 256 := by
  have hp := p.toNat_lt
  have heq : p.toInt8.toInt = (p.toNat : ℤ).bmod 256 := p.toBitVec.toInt_eq_toNat_bmod
  rw [heq, Int.bmod_def]
  split_ifs <;> omega

/-- A counter with which a chunk may still be sent is incremented. -/
theorem counter_succ {p : UInt8} (hpos : 0 ≤ p.toInt8.toInt) (hlt : p.toInt8.toInt < chunkSendRepeats) :
    p.toNat < chunkSendRepeats ∧ (p + 1).toNat = p.toNat + 1 ∧ isAcknowledged p = false ∧
      isAcknowledged (p + 1) = false := by
  have hp := p.toNat_lt
  have hrepeats : (chunkSendRepeats : ℤ) = 4 := rfl
  have hsmall : p.toNat < 4 := by
    rw [toInt8_eq] at hpos hlt
    split_ifs at hpos hlt <;> omega
  have hsucc : (p + 1).toNat = p.toNat + 1 := by
    rw [UInt8.toNat_add]
    exact Nat.mod_eq_of_lt (show p.toNat + 1 < 256 by omega)
  refine ⟨hsmall, hsucc, ?_, ?_⟩
  · rw [isAcknowledged]
    exact decide_eq_false (not_lt.mpr hpos)
  · rw [isAcknowledged, toInt8_eq, hsucc, if_pos (by omega)]
    exact decide_eq_false (by omega)

/-- The digits of a number tell which it is. -/
theorem decimal_inj {m n : ℕ} (hm : m < 2 ^ 32) (hn : n < 2 ^ 32) (h : decimal m = decimal n) :
    m = n := by
  have hnumber := congrArg digitsNumber h
  rwa [(decimal_spec m).2.2, (decimal_spec n).2.2, show m % uintModulus = m from Nat.mod_eq_of_lt hm,
    show n % uintModulus = n from Nat.mod_eq_of_lt hn] at hnumber

theorem all_decimal (n : ℕ) : ∀ c ∈ decimal n, isDecimal c = true :=
  List.all_eq_true.mp (decimal_spec n).2.1

/-- The chunks of a message start with different numbers. -/
theorem chunkAt_inj {firstChunk j k : ℕ} {pieces : List (List UInt8)} (hj : firstChunk + j < 2 ^ 32)
    (hk : firstChunk + k < 2 ^ 32) (h : chunkAt firstChunk pieces j = chunkAt firstChunk pieces k) :
    j = k := by
  have hdigits : ∀ l, (chunkAt firstChunk pieces l).takeWhile isDecimal = decimal (firstChunk + l) := by
    intro l
    rw [chunkAt, chunkHeader, List.append_assoc, List.takeWhile_append_of_pos (all_decimal _)]
    have hend : ((if firstChunk + l = firstChunk then ascii " " else crlf)
        ++ pieces.getD l []).takeWhile isDecimal = [] := by
      split_ifs <;> rfl
    rw [hend, List.append_nil]
  have hsame := (hdigits j).symm.trans ((congrArg (List.takeWhile isDecimal) h).trans (hdigits k))
  exact Nat.add_left_cancel (decimal_inj hj hk hsame)

/-! ## Acknowledgements -/

section

variable {firstChunk i : ℕ} {pieces : List (List UInt8)} {counters : List UInt8} {realloc : Realloc}
  {v w : Visit}

/-- A message that is no request and is accepted passed as an acknowledgement, and wrote its client
alone. -/
theorem serverReceiveDataGuppy_accepted
    (howner : v.server.shortRequestMessageOwner = some (v.server.pointer i))
    (hrequest : v.server.messageIsRequest = false)
    (hok : serverReceiveDataGuppy i realloc v = .ok () w) :
    acknowledgementPasses (v.server.client i).response (strtoul v.server.shortRequestMessage).1
        (strtoul v.server.shortRequestMessage).2 = true ∧
      ∃ client, acknowledgeChunk (strtoul v.server.shortRequestMessage).1 (v.server.client i)
          = .ok () client ∧
        w.server = { v.server.setClient i client with
          shortRequestMessageSize := 0, shortRequestMessageOwner := none } := by
  have hnot : ¬ (v.server.shortRequestMessageSize ≥ guppyScheme.length ∧
      v.server.shortRequestMessage.take guppyScheme.length = guppyScheme) := by
    rw [Server.messageIsRequest] at hrequest
    simpa using hrequest
  unfold serverReceiveDataGuppy at hok
  rw [if_neg (not_not.mpr howner)] at hok
  dsimp only at hok
  rw [if_neg hnot] at hok
  split_ifs at hok with hpasses
  · obtain ⟨_, u, hhandled, hlast⟩ := Outcome.andThen_eq_ok.mp hok
    obtain ⟨x, hclient, rfl⟩ := Outcome.mapState_eq_ok.mp hhandled
    obtain ⟨client, hacknowledge, rfl⟩ := Server.onClient_eq_ok hclient
    obtain ⟨-, rfl⟩ := Outcome.ok.inj hlast
    exact ⟨hpasses, client, hacknowledge, rfl⟩
  · cases hok

/-- The state in which an acknowledgement was accepted. -/
theorem SameOutput.acknowledged {s : Server} (hi : i < s.clients.elements.length) {client : Client}
    (hsame : (s.client i).SameIdentity client)
    (hstream : client.responseStream = (s.client i).responseStream) :
    SameOutput s { s.setClient i client with
      shortRequestMessageSize := 0, shortRequestMessageOwner := none } := by
  obtain ⟨hblock, hlength, hshort, howner, hbuffers, hclients⟩ :=
    SameOutput.setClient hi hsame hstream s.effects
  exact ⟨hblock, hlength, hshort, howner, hbuffers, hclients⟩

/-- An acknowledgement that is accepted writes the counter of its chunk, and nothing else. -/
theorem Sends.acknowledge (h : Sends firstChunk pieces i v.server counters)
    (hsmall : firstChunk + pieces.length < 2 ^ 32)
    (howner : v.server.shortRequestMessageOwner = some (v.server.pointer i))
    (hrequest : v.server.messageIsRequest = false)
    (hok : serverReceiveDataGuppy i realloc v = .ok () w) :
    ∃ k < pieces.length, (strtoul v.server.shortRequestMessage).1 = firstChunk + k ∧
      Sends firstChunk pieces i w.server (counters.set k 255) ∧
      w.server.effects = v.server.effects ∧
      (w.server.client i).birth = (v.server.client i).birth := by
  obtain ⟨hcounters, hlimit, hfirstChunk, hsize⟩ := h.counters_eq
  obtain ⟨entry, hqueue, rfl, hentry⟩ := h.entry
  obtain ⟨hfront, hcount, hcontent⟩ := hqueue.counters_eq
  have hpending : PendingChunks v.server i := ⟨hqueue.valid, hlimit, by omega⟩
  obtain ⟨hpasses, client, hacknowledge, hserver⟩ :=
    serverReceiveDataGuppy_accepted howner hrequest hok
  obtain ⟨-, hfirst, hlast⟩ := (acknowledgementPasses_iff _ _ hpending.window).mp hpasses
  obtain ⟨queue, hchunk, hvalid, hwritten⟩ := acknowledgeChunk_spec hpending hfirst hlast
  obtain ⟨-, rfl⟩ := Outcome.ok.inj (hacknowledge.symm.trans hchunk)
  obtain ⟨k, hk⟩ := Nat.exists_eq_add_of_le hfirst
  rw [hk, hsize] at hlast
  have hlt : k < pieces.length := by omega
  have hset : overwrite (entry.front ++ entry.chunks) (entry.front.length + k) [255]
      = entry.front ++ entry.chunks.set k 255 := by
    have hin : entry.front.length + k < (entry.front ++ entry.chunks).length := by
      rw [List.length_append, hcount, hsize]
      omega
    rw [overwrite_singleton hin, List.set_append_right _ _ (Nat.le_add_right _ _),
      Nat.add_sub_cancel_left]
  rw [hk, Nat.add_sub_cancel_left, hcontent, chunkCounters, ← hfront, hset] at hwritten
  have hkept := hqueue.withChunks hvalid (List.length_set ..) hwritten
  have houtput : SameOutput v.server w.server := by
    rw [hserver]
    exact .acknowledged h.lt ⟨rfl, rfl, rfl, rfl, rfl⟩ rfl
  have hclient : w.server.client i = { v.server.client i with responseQueue := queue } := by
    rw [hserver]
    exact Server.client_setClient h.lt _
  refine ⟨k, hlt, hk.trans (by rw [hfirstChunk]), ⟨houtput.messages h.toMessages,
    ⟨entry.withChunks (entry.chunks.set k 255), ?_, rfl, hentry⟩, ?_, ?_⟩, ?_, ?_⟩
  · rw [hclient]
    exact hkept
  · exact (houtput.pending i).trans h.pending
  · rw [List.length_set, h.length]
  · rw [hserver]
    rfl
  · exact (houtput.clients i).1.birth

/-- Nothing can be acknowledged when nothing is pending. -/
theorem Emptied.not_acknowledged (h : Emptied i v.server)
    (howner : v.server.shortRequestMessageOwner = some (v.server.pointer i))
    (hrequest : v.server.messageIsRequest = false) :
    serverReceiveDataGuppy i realloc v ≠ .ok () w := by
  intro hok
  obtain ⟨hpasses, client, hacknowledge, -⟩ := serverReceiveDataGuppy_accepted howner hrequest hok
  have hchunks := h.queue.chunks
  have hempty : (v.server.client i).responseQueue.size = 0 := h.queue.size_eq
  simp only [acknowledgementPasses, Bool.and_eq_true, decide_eq_true_eq] at hpasses
  obtain ⟨⟨-, hfirst⟩, hlast⟩ := hpasses
  have hwrap : sizeAdd (v.server.client i).response.firstChunk
      (v.server.client i).response.chunks.size
      ≤ (v.server.client i).response.firstChunk + (v.server.client i).response.chunks.size :=
    Nat.mod_le _ _
  have hword : sizeAdd (v.server.client i).response.firstChunk
      (v.server.client i).response.chunks.size < 2 ^ 64 := Nat.mod_lt _ (by decide)
  have hsizeof : sizeofResponse = 88 := rfl
  rw [ValueLocation.limit] at hchunks
  rw [acknowledgeChunk, sizeSub_eq hfirst (by omega), sizeAdd_eq (a := sizeofResponse) (by omega),
    sizeAdd_eq (by omega)] at hacknowledge
  obtain ⟨e, he⟩ : ∃ e, ringGet (v.server.client i).responseQueue
      ⟨sizeofResponse + (v.server.client i).response.chunks.offset
        + ((strtoul v.server.shortRequestMessage).1 - (v.server.client i).response.firstChunk), 1⟩
      false = .error e := by
    refine ringGet_eq_error false ?_ ?_
    · rw [hempty, ValueLocation.limit]
      exact Nat.succ_pos _
    · rw [ValueLocation.limit]
      dsimp only
      omega
  rw [he] at hacknowledge
  cases hacknowledge

end

/-! ## Runs -/

/-- What happens to a client while a message is pending for it. -/
inductive MessageEvent where
  /-- A round in which chunks may be sent -/
  | round
  /-- An acknowledgement with this number is accepted. -/
  | acknowledged (number : ℕ)
  /-- Something else -/
  | other
deriving DecidableEq, Repr

/-- What may happen to client `i` while a message is pending for it. A round may be a real or a dry one,
and may fail. -/
inductive MessageStep (i : ℕ) : Server → MessageEvent → Server → Prop where
  | round {v w : Visit} {now : ℤ} {answers : SendAnswers} (hsaturated : v.flags.saturated = false)
      (hsend : getMakesSenseToSend v.server i = true)
      (hends : (serverSendTraffic i now answers v).Ends w) :
      MessageStep i v.server .round w.server
  | acknowledged {v w : Visit} {realloc : Realloc}
      (howner : v.server.shortRequestMessageOwner = some (v.server.pointer i))
      (hrequest : v.server.messageIsRequest = false)
      (hok : serverReceiveDataGuppy i realloc v = .ok () w) :
      MessageStep i v.server (.acknowledged (strtoul v.server.shortRequestMessage).1) w.server
  /-- A datagram is received. -/
  | received {s : Server} {datagram : List UInt8} {owner : Option ClientPointer} {size : ℕ} :
      MessageStep i s .other { s with
        shortRequestMessage := datagram
        shortRequestMessageOwner := owner
        shortRequestMessageSize := size }
  /-- Another client is served. -/
  | served {s t : Server} {j : ℕ} (hj : i ≠ j) (hbirth : (s.client j).birth ≠ (s.client i).birth)
      (hspares : Spares j s t) (howner : t.OwnerInv) : MessageStep i s .other t

/-- The numbers that were acknowledged. -/
def acknowledgedIn (events : List MessageEvent) : List ℕ :=
  events.filterMap fun
    | .acknowledged number => some number
    | _ => none

/-- How often chunk `k` was handed to the socket of a client. -/
def transmissions (firstChunk : ℕ) (pieces : List (List UInt8)) (birth k : ℕ) (told : List Effect) :
    ℕ :=
  (sentToIn (history birth told)).count (chunkAt firstChunk pieces k)

/-- A run of a client with a message, from `s` to `t`. Chunks with a negative counter are those that were
acknowledged, and the counter of any other chunk is how often it was sent. -/
structure Tracked (firstChunk : ℕ) (pieces : List (List UInt8)) (i : ℕ) (s : Server)
    (events : List MessageEvent) (t : Server) (counters : List UInt8) (told : List Effect) :
    Prop where
  effects : t.effects = s.effects ++ told
  birth : (t.client i).birth = (s.client i).birth
  length : counters.length = pieces.length
  acknowledged : ∀ k < pieces.length,
    isAcknowledged (counters.getD k 0) = true ↔ firstChunk + k ∈ acknowledgedIn events
  repeats : ∀ k < pieces.length,
    transmissions firstChunk pieces (s.client i).birth k told ≤ chunkSendRepeats
  counted : ∀ k < pieces.length, isAcknowledged (counters.getD k 0) = false →
    (counters.getD k 0).toNat = transmissions firstChunk pieces (s.client i).birth k told
  state : Sends firstChunk pieces i t counters ∨ counters.all isAcknowledged = true ∧ Emptied i t

section

variable {firstChunk birth i k : ℕ} {pieces : List (List UInt8)} {counters newCounters : List UInt8}
  {ks : List ℕ}

theorem transmissions_append (told more : List Effect) :
    transmissions firstChunk pieces birth k (told ++ more)
      = transmissions firstChunk pieces birth k told
        + transmissions firstChunk pieces birth k more := by
  rw [transmissions, history_append, sentToIn_append, List.count_append]
  rfl

/-- What is told of others is no transmission. -/
theorem transmissions_of_others {more : List Effect}
    (h : ∀ effect ∈ more, effect.birth ≠ some birth) :
    transmissions firstChunk pieces birth k more = 0 := by
  rw [transmissions, history_of_others h]
  rfl

/-- What was told of a round are its datagrams. -/
theorem sentToIn_round (birth : ℕ) (datagrams : List (List UInt8)) (popped : List ResponseEntry) :
    sentToIn (history birth (datagrams.map (.sentTo birth) ++ poppedEffects birth popped))
      = datagrams := by
  have hown : ∀ effect ∈ datagrams.map (.sentTo birth) ++ poppedEffects birth popped,
      effect.birth = some birth := by
    intro effect heffect
    rcases List.mem_append.mp heffect with heffect | heffect
    · obtain ⟨datagram, -, rfl⟩ := List.mem_map.mp heffect
      rfl
    · obtain ⟨entry, -, rfl⟩ := List.mem_map.mp heffect
      rfl
  have hsent : sentToIn (datagrams.map (.sentTo birth)) = datagrams := by
    rw [sentToIn, List.filterMap_map]
    exact List.filterMap_some
  rw [history_of_own hown, sentToIn_append, hsent, sentToIn_poppedEffects, List.append_nil]

namespace SentChunks

/-- The chunks that were sent are chunks of the message whose counters are not too high. -/
theorem mem (h : SentChunks firstChunk pieces 0 counters ks datagrams newCounters) {j : ℕ}
    (hj : j ∈ ks) : j < counters.length ∧ 0 ≤ (counters.getD j 0).toInt8.toInt ∧
      (counters.getD j 0).toInt8.toInt < chunkSendRepeats := by
  obtain ⟨-, hlt, hpos, hrepeats⟩ := h.consulted j hj
  rw [Nat.sub_zero] at hpos hrepeats
  exact ⟨by omega, hpos, hrepeats⟩

/-- The counters of the chunks that were sent are incremented. -/
theorem getD (h : SentChunks firstChunk pieces 0 counters ks datagrams newCounters)
    (hk : k < counters.length) :
    newCounters.getD k 0 = if k ∈ ks then counters.getD k 0 + 1 else counters.getD k 0 := by
  rw [h.counters_eq, List.getD_eq_getElem?_getD, List.getElem?_mapIdx, List.getD_eq_getElem?_getD,
    List.getElem?_eq_getElem hk, Nat.zero_add]
  rfl

/-- Every chunk was sent once or not at all. -/
theorem count (h : SentChunks firstChunk pieces 0 counters ks datagrams newCounters)
    (hlength : counters.length = pieces.length) (hsmall : firstChunk + pieces.length < 2 ^ 32)
    (hk : k < pieces.length) :
    (ks.map (chunkAt firstChunk pieces)).count (chunkAt firstChunk pieces k)
      = if k ∈ ks then 1 else 0 := by
  have hinj : ∀ j ∈ ks, ∀ l < pieces.length,
      chunkAt firstChunk pieces j = chunkAt firstChunk pieces l → j = l := by
    intro j hj l hl
    have := (h.mem hj).1
    exact chunkAt_inj (by omega) (by omega)
  have hnodup : ks.Nodup := h.increasing.imp fun hlt => hlt.ne
  have hmap : (ks.map (chunkAt firstChunk pieces)).Nodup :=
    List.Nodup.map_on (fun j hj l hl => hinj j hj l (hlength ▸ (h.mem hl).1)) hnodup
  have hmem : chunkAt firstChunk pieces k ∈ ks.map (chunkAt firstChunk pieces) ↔ k ∈ ks := by
    rw [List.mem_map]
    constructor
    · rintro ⟨j, hj, heq⟩
      exact hinj j hj k hk heq ▸ hj
    · intro hks
      exact ⟨k, hks, rfl⟩
  rw [hmap.count]
  exact if_congr hmem rfl rfl

end SentChunks

/-- A list of counters is told counter by counter. -/
theorem all_iff_getD {p : UInt8 → Bool} :
    counters.all p = true ↔ ∀ k < counters.length, p (counters.getD k 0) = true := by
  rw [List.all_eq_true]
  constructor
  · intro h k hk
    rw [List.getD_eq_getElem counters 0 hk]
    exact h _ (List.getElem_mem hk)
  · intro h c hc
    obtain ⟨k, hk, rfl⟩ := List.getElem_of_mem hc
    rw [← List.getD_eq_getElem counters 0 hk]
    exact h k hk

@[simp] theorem acknowledgedIn_append (events more : List MessageEvent) :
    acknowledgedIn (events ++ more) = acknowledgedIn events ++ acknowledgedIn more :=
  List.filterMap_append ..

variable {s t u : Server} {events : List MessageEvent} {told : List Effect}

/-- A round increments the counters of the chunks it sends. -/
theorem Tracked.round (h : Tracked firstChunk pieces i s events t counters told)
    (hsmall : firstChunk + pieces.length < 2 ^ 32)
    (hround : RoundMade firstChunk pieces i t u counters ks newCounters) :
    ∃ more, Tracked firstChunk pieces i s (events ++ [.round]) u newCounters (told ++ more) := by
  obtain ⟨popped, heffects⟩ := hround.told
  have hlength : newCounters.length = pieces.length := by
    rw [hround.sent.counters_eq, List.length_mapIdx, h.length]
  rw [h.birth, List.append_assoc] at heffects
  set more : List Effect := (ks.map (chunkAt firstChunk pieces)).map (.sentTo (s.client i).birth)
    ++ poppedEffects (s.client i).birth popped with hmore
  have htransmissions : ∀ k < pieces.length,
      transmissions firstChunk pieces (s.client i).birth k more = if k ∈ ks then 1 else 0 := by
    intro k hk
    rw [transmissions, hmore, sentToIn_round]
    exact hround.sent.count h.length hsmall hk
  -- a chunk that is sent has its counter raised, and stays unacknowledged
  have hcounter : ∀ k < pieces.length,
      newCounters.getD k 0 = if k ∈ ks then counters.getD k 0 + 1 else counters.getD k 0 :=
    fun k hk => hround.sent.getD (h.length ▸ hk)
  have hsame : ∀ k < pieces.length,
      isAcknowledged (newCounters.getD k 0) = isAcknowledged (counters.getD k 0) := by
    intro k hk
    rw [hcounter k hk]
    split_ifs with hks
    · obtain ⟨-, hpos, hrepeats⟩ := hround.sent.mem hks
      obtain ⟨-, -, hfalse, hfalse'⟩ := counter_succ hpos hrepeats
      rw [hfalse, hfalse']
    · rfl
  refine ⟨more, ?_, hround.birth.trans h.birth, hlength, fun k hk => ?_, fun k hk => ?_,
    fun k hk hfalse => ?_, ?_⟩
  · rw [heffects, h.effects, List.append_assoc]
  · rw [hsame k hk, acknowledgedIn_append]
    exact (h.acknowledged k hk).trans (by simp [acknowledgedIn])
  · rw [transmissions_append, htransmissions k hk]
    have hrepeats := h.repeats k hk
    split_ifs with hks
    · obtain ⟨-, hpos, hlt⟩ := hround.sent.mem hks
      obtain ⟨hcount, -, hfalse, -⟩ := counter_succ hpos hlt
      have := h.counted k hk hfalse
      omega
    · exact hrepeats
  · rw [hsame k hk] at hfalse
    have hcounted := h.counted k hk hfalse
    rw [transmissions_append, htransmissions k hk, hcounter k hk]
    split_ifs with hks
    · obtain ⟨-, hpos, hlt⟩ := hround.sent.mem hks
      obtain ⟨-, hsucc, -, -⟩ := counter_succ hpos hlt
      rw [hsucc, hcounted]
    · exact hcounted
  · have hleft := hround.left
    split_ifs at hleft with hall
    · refine .inr ⟨all_iff_getD.mpr fun k hk => ?_, hleft⟩
      rw [hlength] at hk
      rw [hsame k hk]
      exact all_iff_getD.mp hall k (h.length ▸ hk)
    · exact .inl hleft

/-- An acknowledgement marks its chunk. -/
theorem Tracked.acknowledge (h : Tracked firstChunk pieces i s events t counters told)
    (hk : k < pieces.length) (hsends : Sends firstChunk pieces i u (counters.set k 255))
    (heffects : u.effects = t.effects) (hbirth : (u.client i).birth = (t.client i).birth) :
    Tracked firstChunk pieces i s (events ++ [.acknowledged (firstChunk + k)]) u
      (counters.set k 255) told := by
  have hcounter : ∀ j < pieces.length,
      (counters.set k 255).getD j 0 = if k = j then 255 else counters.getD j 0 := by
    intro j hj
    rw [List.getD_eq_getElem?_getD, List.getElem?_set, List.getD_eq_getElem?_getD]
    split_ifs with hkj hlt
    · rfl
    · exact absurd (h.length ▸ hk) hlt
    · rfl
  have hmarked : isAcknowledged 255 = true := by decide
  have hevents : acknowledgedIn [.acknowledged (firstChunk + k)] = [firstChunk + k] := rfl
  refine ⟨heffects.trans h.effects, hbirth.trans h.birth, (List.length_set ..).trans h.length,
    fun j hj => ?_, h.repeats, fun j hj hfalse => ?_, .inl hsends⟩
  · rw [hcounter j hj, acknowledgedIn_append, hevents, List.mem_append, List.mem_singleton,
      ← h.acknowledged j hj]
    split_ifs with hkj
    · rw [hkj]
      exact iff_of_true hmarked (.inr rfl)
    · exact ⟨.inl, fun hor => hor.resolve_right (by omega)⟩
  · rw [hcounter j hj] at hfalse ⊢
    split_ifs at hfalse ⊢ with hkj
    · rw [hmarked] at hfalse
      cases hfalse
    · exact h.counted j hj hfalse

/-- What happens elsewhere changes nothing about the message. -/
theorem Tracked.other {more : List Effect}
    (h : Tracked firstChunk pieces i s events t counters told)
    (hmessages : u.Messages i) (hbooks : SameBooks (t.client i) (u.client i))
    (hpending : u.pending i = t.pending i) (heffects : u.effects = t.effects ++ more)
    (hothers : ∀ effect ∈ more, effect.birth ≠ some (t.client i).birth)
    (hbirth : (u.client i).birth = (t.client i).birth) :
    Tracked firstChunk pieces i s (events ++ [.other]) u counters (told ++ more) := by
  have hnone : ∀ k, transmissions firstChunk pieces (s.client i).birth k (told ++ more)
      = transmissions firstChunk pieces (s.client i).birth k told := by
    intro k
    have hzero : transmissions firstChunk pieces (s.client i).birth k more = 0 :=
      transmissions_of_others (h.birth ▸ hothers)
    rw [transmissions_append, hzero, Nat.add_zero]
  refine ⟨?_, hbirth.trans h.birth, h.length, fun k hk => ?_, fun k hk => ?_, fun k hk => ?_, ?_⟩
  · rw [heffects, h.effects, List.append_assoc]
  · rw [h.acknowledged k hk, acknowledgedIn_append]
    simp [acknowledgedIn]
  · rw [hnone k]
    exact h.repeats k hk
  · rw [hnone k]
    exact h.counted k hk
  · rcases h.state with hsends | ⟨hall, hemptied⟩
    · obtain ⟨entry, hqueue, hentry⟩ := hsends.entry
      exact .inl ⟨hmessages, ⟨entry, hqueue.congr hbooks, hentry⟩, hpending.trans hsends.pending,
        h.length⟩
    · exact .inr ⟨hall, hmessages, hemptied.queue.congr hbooks, hpending.trans hemptied.pending⟩

/-- The client is one that messages are sent to. -/
theorem Tracked.messages (h : Tracked firstChunk pieces i s events t counters told) :
    t.Messages i := by
  rcases h.state with hsends | ⟨-, hemptied⟩
  · exact hsends.toMessages
  · exact hemptied.toMessages

/-- Nothing is sent to a client that has nothing pending. -/
theorem Emptied.not_sends (h : Emptied i s) : getMakesSenseToSend s i = false := by
  rw [getMakesSenseToSend, h.owner.size_eq h.valid, h.pending]
  rfl

/-- What a round does is a `RoundMade`. -/
theorem Tracked.round_made (h : Tracked firstChunk pieces i s events t counters told)
    {payload : List UInt8} (hmessage : IsMessage firstChunk payload pieces)
    (hpayload : payload.length < 2 ^ 30) (hfirst : firstChunk ≤ 2 ^ 31)
    (hstep : MessageStep i t .round u) :
    Sends firstChunk pieces i t counters ∧
      ∃ ks newCounters, RoundMade firstChunk pieces i t u counters ks newCounters := by
  cases hstep with
  | round hsaturated hsend hends =>
    rcases h.state with hsends | ⟨-, hemptied⟩
    · exact ⟨hsends, (hsends.traffic hmessage hpayload hfirst hsaturated _ _).of_ends hends⟩
    · rw [hemptied.not_sends] at hsend
      cases hsend

/-- What an acknowledgement that is accepted does. -/
theorem Tracked.acknowledge_made (h : Tracked firstChunk pieces i s events t counters told)
    (hsmall : firstChunk + pieces.length < 2 ^ 32) {number : ℕ}
    (hstep : MessageStep i t (.acknowledged number) u) :
    Sends firstChunk pieces i t counters ∧ ∃ k < pieces.length, number = firstChunk + k ∧
      Sends firstChunk pieces i u (counters.set k 255) ∧ u.effects = t.effects ∧
      (u.client i).birth = (t.client i).birth := by
  cases hstep with
  | acknowledged howner hrequest hok =>
    rcases h.state with hsends | ⟨-, hemptied⟩
    · exact ⟨hsends, hsends.acknowledge hsmall howner hrequest hok⟩
    · exact absurd hok (hemptied.not_acknowledged howner hrequest)

/-- A step keeps the counters. -/
theorem Tracked.step (h : Tracked firstChunk pieces i s events t counters told)
    {payload : List UInt8} (hmessage : IsMessage firstChunk payload pieces)
    (hpayload : payload.length < 2 ^ 30) (hfirst : firstChunk ≤ 2 ^ 31) {event : MessageEvent}
    (hstep : MessageStep i t event u) : ∃ newCounters more,
      Tracked firstChunk pieces i s (events ++ [event]) u newCounters (told ++ more) := by
  have hle := hmessage.length_pieces_le
  have hsmall : firstChunk + pieces.length < 2 ^ 32 := by omega
  rcases event with _ | number | _
  · obtain ⟨-, ks, newCounters, hround⟩ := h.round_made hmessage hpayload hfirst hstep
    exact ⟨newCounters, h.round hsmall hround⟩
  · obtain ⟨-, k, hk, rfl, hsends, heffects, hbirth⟩ := h.acknowledge_made hsmall hstep
    refine ⟨counters.set k 255, [], ?_⟩
    rw [List.append_nil]
    exact h.acknowledge hk hsends heffects hbirth
  · cases hstep with
    | @received _ datagram owner size =>
      refine ⟨counters, [], h.other ?_ ⟨rfl, rfl, rfl⟩ rfl (List.append_nil _).symm ?_ rfl⟩
      · have houtput : SameOutput t { t with
            shortRequestMessage := datagram
            shortRequestMessageOwner := owner
            shortRequestMessageSize := size } :=
          ⟨rfl, rfl, rfl, rfl, rfl, fun _ => ⟨.refl _, rfl⟩⟩
        exact houtput.messages h.messages
      · intro effect heffect
        cases heffect
    | served hj hbirth hspares howner =>
      -- a visit of another client is told of that one, and only moves the stream of this one
      obtain ⟨more, hmore, hothers⟩ := hspares.told
      have hmoved := hspares.others i hj
      refine ⟨counters, more, h.other ⟨?_, ?_, howner, ?_⟩ hmoved.sameBooks (hspares.pending i hj)
        hmore ?_ hmoved.identity.birth⟩
      · rw [hspares.length]
        exact h.messages.lt
      · rw [hmoved.identity.acceptingSocket]
        exact h.messages.unconnected
      · rcases hmoved with heq | ⟨stream, hvalid, heq⟩
        · rw [heq]
          exact h.messages.valid
        · rw [heq]
          exact hvalid
      · intro effect heffect
        rw [hothers effect heffect, ne_eq, Option.some.injEq]
        exact hbirth

/-- A run keeps the counters. -/
theorem Tracked.run (h : Tracked firstChunk pieces i s events t counters told)
    {payload : List UInt8} (hmessage : IsMessage firstChunk payload pieces)
    (hpayload : payload.length < 2 ^ 30) (hfirst : firstChunk ≤ 2 ^ 31) {more : List MessageEvent}
    (hrun : Runs (MessageStep i) t more u) : ∃ newCounters told',
      Tracked firstChunk pieces i s (events ++ more) u newCounters told' := by
  induction hrun generalizing events counters told with
  | nil t => exact ⟨counters, told, by rwa [List.append_nil]⟩
  | cons head tail ih =>
    obtain ⟨newCounters, told', hnext⟩ := h.step hmessage hpayload hfirst head
    obtain ⟨lastCounters, told'', hlast⟩ := ih hnext
    refine ⟨lastCounters, told'', ?_⟩
    rwa [List.append_assoc, List.singleton_append] at hlast

end

/-! ## What holds after every run -/

/-- The counters of the chunks as the sender consults them. -/
def messageCounters (s : Server) (i : ℕ) : List UInt8 :=
  segment (ringContent (s.client i).responseQueue) (chunkCounters s i) false

/-- A round after these events: a few chunks are sent, of which none was acknowledged, and the message is
emptied and its response popped when all chunks were acknowledged, and only then. -/
structure RoundRight (firstChunk : ℕ) (pieces : List (List UInt8)) (i : ℕ)
    (events : List MessageEvent) (t u : Server) : Prop where
  sent : ∃ ks newCounters more,
    SentChunks firstChunk pieces 0 (messageCounters t i) ks (ks.map (chunkAt firstChunk pieces))
      newCounters ∧
    ks.length ≤ chunkSendSimultaneous ∧ (∀ k ∈ ks, firstChunk + k ∉ acknowledgedIn events) ∧
    u.effects = t.effects ++ more ∧
    sentToIn (history (t.client i).birth more) = ks.map (chunkAt firstChunk pieces)
  emptied : (∀ k < pieces.length, firstChunk + k ∈ acknowledgedIn events) →
    u.pending i = [] ∧ (u.client i).responseCount = 0
  kept : ¬ (∀ k < pieces.length, firstChunk + k ∈ acknowledgedIn events) →
    u.pending i = message firstChunk pieces ∧ (u.client i).responseCount = 1

/-- What holds after a run of these events from `s` to `t`, and of the step that follows. -/
structure TransmittedRight (firstChunk : ℕ) (pieces : List (List UInt8)) (i : ℕ) (s : Server)
    (events : List MessageEvent) (t : Server) : Prop where
  repeats : ∃ told, t.effects = s.effects ++ told ∧ ∀ k < pieces.length,
    transmissions firstChunk pieces (s.client i).birth k told ≤ chunkSendRepeats
  round : ∀ u, MessageStep i t .round u → RoundRight firstChunk pieces i events t u
  acknowledged : ∀ number u, MessageStep i t (.acknowledged number) u →
    firstChunk ≤ number ∧ number < firstChunk + pieces.length ∧
      messageCounters u i = (messageCounters t i).set (number - firstChunk) 255

/-- A message that nothing was sent of yet is pending for client `i`. -/
structure StartsMessage (firstChunk chunkNumber : ℕ) (text : List UInt8) (i : ℕ) (s : Server) : Prop
    extends Server.Messages s i where
  entry : ∃ entry, QueueHolds (s.client i) [entry] 0 ∧ entry.chunks = List.replicate chunkNumber 0 ∧
    entry.response.firstChunk = firstChunk ∧ entry.response.streamSize = text.length
  pending : s.pending i = text

/-- The entry that `processor_construct_response` adds to an empty queue, with its counters zero. -/
theorem QueueHolds.constructed {client : Client} (h : QueueHolds client [] 0) {realloc : Realloc}
    {keepAlive : Bool} {streamSize firstChunk chunkNumber : ℕ} (hstream : streamSize < 2 ^ 64)
    (hfirst : firstChunk < 2 ^ 32) {method resource protocol : ConstantValue} {response : Response}
    {queue : Ring}
    (hbuilt : processorConstructResponse client.responseQueue realloc streamSize keepAlive firstChunk
      chunkNumber method resource protocol = .ok response queue) :
    QueueHolds { client with responseQueue := queue, response := response, responseCount := 1 }
      [constructedEntry streamSize keepAlive firstChunk chunkNumber method resource protocol] 0 := by
  obtain ⟨hvalid, rfl, hcontent, hsize⟩ := (processorConstructResponse_spec h.valid realloc streamSize
    keepAlive firstChunk chunkNumber method resource protocol).of_eq_ok hbuilt
  have hwell : (constructedEntry streamSize keepAlive firstChunk chunkNumber method resource
      protocol).WellFormed := constructedEntry_wellFormed hstream hfirst (by omega)
  rw [h.content, List.flatMap_nil, List.nil_append, ← List.flatMap_singleton ResponseEntry.bytes]
    at hcontent
  refine ⟨hvalid, hcontent, fun entry hentry => ?_, rfl, fun entry hentry => ?_, fun _ => rfl,
    limit_le_of_mem hvalid hcontent hwell List.mem_cons_self⟩
  · rw [List.mem_singleton.mp hentry]
    exact ⟨hwell, rfl⟩
  · obtain rfl := Option.some.inj hentry
    exact ⟨rfl, .inl rfl⟩

section

variable {firstChunk i : ℕ} {pieces : List (List UInt8)} {s t : Server} {events : List MessageEvent}
  {counters : List UInt8} {told : List Effect}

/-- A message starts with all counters zero. -/
theorem StartsMessage.tracked
    (h : StartsMessage firstChunk pieces.length (message firstChunk pieces) i s) :
    Tracked firstChunk pieces i s [] s (List.replicate pieces.length 0) [] := by
  have hzero : ∀ k < pieces.length, (List.replicate pieces.length (0 : UInt8)).getD k 0 = 0 := by
    intro k hk
    rw [List.getD_eq_getElem _ _ (by rwa [List.length_replicate]), List.getElem_replicate]
  have hfalse : isAcknowledged 0 = false := by decide
  refine ⟨(List.append_nil _).symm, rfl, List.length_replicate, fun k hk => ?_,
    fun k hk => Nat.zero_le _, fun k hk _ => ?_, .inl ⟨h.toMessages, h.entry, h.pending,
      List.length_replicate⟩⟩
  · rw [hzero k hk, hfalse]
    exact iff_of_false Bool.false_ne_true List.not_mem_nil
  · rw [hzero k hk]
    rfl

/-- The counters are negative exactly when everything is acknowledged. -/
theorem Tracked.all_iff (h : Tracked firstChunk pieces i s events t counters told) :
    counters.all isAcknowledged = true ↔
      ∀ k < pieces.length, firstChunk + k ∈ acknowledgedIn events := by
  rw [all_iff_getD, h.length]
  exact forall₂_congr h.acknowledged

theorem Tracked.transmitted (h : Tracked firstChunk pieces i s events t counters told)
    {payload : List UInt8} (hmessage : IsMessage firstChunk payload pieces)
    (hpayload : payload.length < 2 ^ 30) (hfirst : firstChunk ≤ 2 ^ 31) :
    TransmittedRight firstChunk pieces i s events t := by
  have hle := hmessage.length_pieces_le
  have hsmall : firstChunk + pieces.length < 2 ^ 32 := by omega
  refine ⟨⟨told, h.effects, h.repeats⟩, fun u hstep => ?_, fun number u hstep => ?_⟩
  · obtain ⟨hsends, ks, newCounters, hround⟩ := h.round_made hmessage hpayload hfirst hstep
    have hcounters : messageCounters t i = counters := hsends.counters_eq.1
    obtain ⟨popped, heffects⟩ := hround.told
    have hleft := hround.left
    refine ⟨⟨ks, newCounters, _, hcounters ▸ hround.sent, hround.few, fun k hks => ?_,
      heffects.trans (List.append_assoc ..), sentToIn_round ..⟩, fun hall => ?_, fun hall => ?_⟩
    · obtain ⟨hk, hpos, hrepeats⟩ := hround.sent.mem hks
      obtain ⟨-, -, hfalse, -⟩ := counter_succ hpos hrepeats
      rw [← h.acknowledged k (h.length ▸ hk), hfalse]
      exact Bool.false_ne_true
    · rw [if_pos (h.all_iff.mpr hall)] at hleft
      exact ⟨hleft.pending, hleft.queue.count⟩
    · rw [if_neg (h.all_iff.not.mpr hall)] at hleft
      obtain ⟨entry, hqueue, -⟩ := hleft.entry
      exact ⟨hleft.pending, hqueue.count⟩
  · obtain ⟨hsends, k, hk, rfl, hacknowledged, -⟩ := h.acknowledge_made hsmall hstep
    have hcounters : messageCounters t i = counters := hsends.counters_eq.1
    have hwritten : messageCounters u i = counters.set k 255 := hacknowledged.counters_eq.1
    rw [Nat.add_sub_cancel_left, hcounters]
    exact ⟨Nat.le_add_right _ _, by omega, hwritten⟩

end

/-- After every run of rounds and acknowledgements of a message of `guppy_insert_markers`, every chunk was
sent four times at most, a round sends four chunks at most and none that was acknowledged, an
acknowledgement marks the chunk of its number, and the message is emptied when all chunks are
acknowledged. -/
theorem messageRun_transmitted {buffer b : CharBuffer} (hbuffer : buffer.Valid) {random : ℕ}
    (hrandom : 6 + random ≤ 2 ^ 31) (hpayload : 1 ≤ buffer.size) (hsmall : buffer.size < 2 ^ 30)
    {realloc : Realloc} {firstChunk chunkNumber : ℕ}
    (hbuilt : guppyInsertMarkers random realloc buffer = .ok (firstChunk, chunkNumber) b)
    {i : ℕ} {s t : Server} (hstart : StartsMessage firstChunk chunkNumber b.text i s)
    {events : List MessageEvent} (hrun : Runs (MessageStep i) s events t) :
    ∃ pieces, IsMessage firstChunk buffer.text pieces ∧ b.text = message firstChunk pieces ∧
      chunkNumber = pieces.length ∧ TransmittedRight firstChunk pieces i s events t := by
  obtain ⟨rfl, -, pieces, hpieces, htext, rfl⟩ :=
    (guppyInsertMarkers_spec hbuffer hrandom hpayload hsmall realloc).of_eq_ok hbuilt
  have hlt : buffer.text.length < 2 ^ 30 := by
    rw [CharBuffer.text, List.length_take]
    omega
  rw [htext] at hstart
  obtain ⟨counters, told, htracked⟩ := hstart.tracked.run hpieces hlt hrandom hrun
  rw [List.nil_append] at htracked
  exact ⟨pieces, hpieces, htext, rfl, htracked.transmitted hpieces hlt hrandom⟩

/-- The entry of a message in two chunks, the first of which has the number six. -/
def twoChunks : ResponseEntry :=
  constructedEntry 11 false 6 2 ⟨[], []⟩ ⟨[], []⟩ ⟨[], []⟩

/-- A server whose short response stream is this message. -/
def twoChunksServer : Server :=
  { messageServer with
    clients := ⟨1, [{ messageServer.client 0 with
      responseQueue := ⟨twoChunks.bytes ++ List.replicate 38 0, 90, 128, 0⟩
      response := twoChunks.response
      responseCount := 1 }], 1⟩ }

theorem twoChunksServer_starts :
    StartsMessage 6 2 (ascii "6 => /a\n7\r\n") 0 twoChunksServer := by
  have hqueue : (twoChunksServer.client 0).responseQueue.Valid :=
    ⟨⟨by decide +kernel, by decide, by decide⟩, .inr ⟨7, by decide, rfl⟩⟩
  have howns : twoChunksServer.Owns 0 :=
    ⟨rfl, by decide, rfl, by decide, Ring.zero_valid, rfl, by decide⟩
  have hwell : twoChunks.WellFormed :=
    constructedEntry_wellFormed (by decide) (by decide) (by decide)
  refine ⟨⟨by decide, by decide, .inr ⟨0, howns⟩, Ring.zero_valid⟩, ⟨twoChunks, ⟨hqueue, ?_, ?_, rfl, ?_,
    fun _ => rfl, by decide⟩, rfl, rfl, rfl⟩, ?_⟩
  · decide +kernel
  · intro entry hentry
    rw [List.mem_singleton.mp hentry]
    exact ⟨hwell, rfl⟩
  · intro entry hentry
    obtain rfl := Option.some.inj hentry
    exact ⟨rfl, .inl rfl⟩
  · rw [howns.pending_eq]
    rfl

/-- A round of this message sends both chunks; the first is acknowledged, and another round sends the second
one again. -/
theorem messageRun_transmitted_two :
    let buffer : CharBuffer := ⟨ascii "=> /a\n" ++ [0, 0], 6, 8⟩
    ∃ t, Runs (MessageStep 0) twoChunksServer [.round, .other, .acknowledged 6, .round] t ∧
      sentToIn (history (t.client 0).birth t.effects)
        = [ascii "6 => /a\n", ascii "7\r\n", ascii "7\r\n"] ∧
      ∃ pieces, IsMessage 6 buffer.text pieces ∧ ascii "6 => /a\n7\r\n" = message 6 pieces ∧
        2 = pieces.length ∧
        TransmittedRight 6 pieces 0 twoChunksServer [.round, .other, .acknowledged 6, .round] t := by
  intro buffer
  have hbuffer : buffer.Valid := ⟨rfl, .inl (by decide)⟩
  have hbuilt : guppyInsertMarkers 0 (some fun _ => 0) buffer
      = .ok (6, 2) ⟨ascii "6 => /a\n7\r\n" ++ [0, 0, 0, 0, 0], 11, 16⟩ := by decide +kernel
  set answers : SendAnswers := ⟨(.wouldBlock, .wouldBlock), (.wouldBlock, .wouldBlock)⟩
  -- the acknowledgement has overwritten the beginning of the scheme of the request
  set datagram := ascii "6\r\npy://"
  have hnumber : (strtoul datagram).1 = 6 := by decide +kernel
  have hreturns : (serverSendTraffic 0 100 answers ⟨twoChunksServer, .no, true, false⟩).returnsIn (fun w =>
      let received := { w.server with
        shortRequestMessage := datagram
        shortRequestMessageOwner := some (w.server.pointer 0)
        shortRequestMessageSize := 3 }
      received.messageIsRequest = false ∧
      (serverReceiveDataGuppy 0 grantAll ⟨received, .no, false, true⟩).returnsIn (fun u =>
        getMakesSenseToSend u.server 0 = true ∧
        (serverSendTraffic 0 101 answers ⟨u.server, .no, false, true⟩).returnsIn (fun w =>
          sentToIn (history (w.server.client 0).birth w.server.effects)
            = [ascii "6 => /a\n", ascii "7\r\n", ascii "7\r\n"]) = true) = true) = true := by
    decide +kernel
  obtain ⟨_, w, hsent, hcheck⟩ := Outcome.exists_of_returnsIn hreturns
  obtain ⟨hrequest, hcheck⟩ := of_decide_eq_true hcheck
  obtain ⟨_, u, hreceived, hcheck⟩ := Outcome.exists_of_returnsIn hcheck
  obtain ⟨hsense, hcheck⟩ := of_decide_eq_true hcheck
  obtain ⟨_, x, hresent, hcheck⟩ := Outcome.exists_of_returnsIn hcheck
  have hround : MessageStep 0 twoChunksServer .round w.server :=
    .round (v := ⟨twoChunksServer, .no, true, false⟩) rfl (by decide) (.inl ⟨_, hsent⟩)
  have hacknowledged := MessageStep.acknowledged rfl hrequest hreceived
  rw [hnumber] at hacknowledged
  have hagain : MessageStep 0 u.server .round x.server :=
    .round (v := ⟨u.server, .no, false, true⟩) rfl hsense (.inl ⟨_, hresent⟩)
  have hrun : Runs (MessageStep 0) twoChunksServer [.round, .other, .acknowledged 6, .round] x.server :=
    .cons hround (.cons .received (.cons hacknowledged (.cons hagain (.nil _))))
  exact ⟨x.server, hrun, of_decide_eq_true hcheck, messageRun_transmitted hbuffer (by decide) (by decide)
    (by decide) hbuilt twoChunksServer_starts hrun⟩

end Twinkleshine
