import Twinkleshine.Server.Processing

/-!
# What sending responses does

A client that is connected without encryption is sent what it has pending, from the front and in pieces
of any size: `server_send_stream` takes some bytes of the short response stream or of the client's own,
and `server_pop_responses` pops the responses that are complete. Reference: `source/server/send.c`,
`server_send_stream` in `source/server/low_level.c`.
-/

namespace Twinkleshine

open Library

/-! ## Bytes from the front -/

/-- A part of a stream is taken from the front, and whole unless the socket is saturated. -/
theorem sendPart_spec {answer : SendAnswer} {part left taken : List UInt8} {saturated : Bool}
    (h : sendPart answer part = .ok (left, taken, saturated)) :
    taken <+: part ∧ (saturated = false → taken = part) := by
  unfold sendPart at h
  by_cases hempty : part.length = 0
  · rw [if_pos hempty] at h
    obtain ⟨-, rfl, -⟩ := Prod.mk.injEq .. ▸ Except.ok.inj h
    exact ⟨List.nil_prefix, fun _ => (List.eq_nil_of_length_eq_zero hempty).symm⟩
  · rw [if_neg hempty] at h
    cases answer with
    | took n pos =>
      obtain ⟨-, rfl, rfl⟩ := Prod.mk.injEq .. ▸ Except.ok.inj h
      refine ⟨List.take_prefix _ _, fun hwhole => List.take_of_length_le ?_⟩
      have := of_decide_eq_false hwhole
      omega
    | wouldBlock =>
      obtain ⟨-, rfl, rfl⟩ := Prod.mk.injEq .. ▸ Except.ok.inj h
      exact ⟨List.nil_prefix, fun hwhole => Bool.noConfusion hwhole⟩
    | failed errno => cases h

/-- `server_send_stream` takes bytes from the front of a stream, also when it fails. -/
theorem serverSendStream_spec (answers : SendAnswer × SendAnswer) (stream : ConstantValue) :
    (serverSendStream answers stream).Ensures (fun _ r => r.taken <+: stream.bytes)
      fun _ r => r.taken <+: stream.bytes := by
  unfold serverSendStream
  cases h₀ : sendPart answers.1 stream.part0 with
  | error e => exact List.nil_prefix
  | ok first =>
    obtain ⟨left₀, taken₀, saturated₀⟩ := first
    obtain ⟨htaken₀, hwhole₀⟩ := sendPart_spec h₀
    have hfront : taken₀ <+: stream.bytes := htaken₀.trans (List.prefix_append _ _)
    dsimp only
    by_cases hsaturated : saturated₀ = true
    · rw [if_pos hsaturated]
      exact hfront
    · rw [if_neg hsaturated]
      cases h₁ : sendPart answers.2 stream.part1 with
      | error e => exact hfront
      | ok second =>
        obtain ⟨left₁, taken₁, saturated₁⟩ := second
        rw [Bool.not_eq_true] at hsaturated
        show taken₀ ++ taken₁ <+: stream.part0 ++ stream.part1
        rw [hwhole₀ hsaturated]
        exact (List.prefix_append_right_inj _).mpr (sendPart_spec h₁).1

/-- The short response stream has as many bytes left as it says. -/
theorem TextValue.size_advance (value : TextValue) {n : ℕ} (h : n ≤ value.size) :
    (value.advance n).size = value.size - n := by
  simp only [TextValue.size, TextValue.advance, TextPart.advance] at h ⊢
  omega

theorem TextValue.advance_zero (value : TextValue) : value.advance 0 = value := by
  simp only [TextValue.advance, TextPart.advance, Nat.zero_sub, Nat.zero_min, Nat.add_zero, Nat.sub_zero]

/-- What a part points to after some of it is sent. -/
theorem TextPart.read_advance (part : TextPart) (buffers : InternalBuffers) (n : ℕ) :
    (part.advance n).read buffers = (part.read buffers).drop n := by
  simp only [TextPart.read, TextPart.advance, List.drop_take, List.drop_drop]

/-- A stream of which the first `n` bytes are sent can be read, and holds the rest. -/
theorem TextValue.read_advance {value : TextValue} {buffers : InternalBuffers}
    (hread : valueSize (value.read buffers) = value.size) (n : ℕ) :
    ((value.advance n).read buffers).bytes = (value.read buffers).bytes.drop n ∧
      valueSize ((value.advance n).read buffers) = (value.advance n).size := by
  have hlength : ∀ part : TextPart, (part.read buffers).length ≤ part.size := fun part =>
    List.length_take_le _ _
  have h₀ := hlength value.part0
  have h₁ := hlength value.part1
  simp only [valueSize_eq, ConstantValue.bytes, TextValue.read, TextValue.size,
    List.length_append] at hread
  have hpart₀ : (value.part0.read buffers).length = value.part0.size := by omega
  have hfirst : (value.part0.advance (min n value.part0.size)).read buffers
      = (value.part0.read buffers).drop n := by
    rw [TextPart.read_advance, ← hpart₀]
    rcases Nat.le_total n (value.part0.read buffers).length with hle | hle
    · rw [Nat.min_eq_left hle]
    · rw [Nat.min_eq_right hle, List.drop_length, List.drop_eq_nil_of_le hle]
  constructor
  · simp only [TextValue.advance, TextValue.read, ConstantValue.bytes]
    rw [hfirst, TextPart.read_advance, List.drop_append, hpart₀]
  · simp only [TextValue.advance, TextValue.read, TextValue.size, valueSize_eq, ConstantValue.bytes,
      List.length_append]
    rw [hfirst, TextPart.read_advance, List.length_drop, List.length_drop]
    simp only [TextPart.advance]
    omega

/-! ## Taking bytes from what is pending -/

/-- The socket of client `i` took the first `n` bytes of what the client had pending. -/
structure Taken (i n : ℕ) (s t : Server) : Prop where
  spares : Spares i s t
  owner : t.OwnerInv
  client_eq : ∃ stream : Ring, stream.Valid ∧
    t.client i = { s.client i with responseStream := stream }
  le : n ≤ (s.pending i).length
  pending : t.pending i = (s.pending i).drop n
  effects : t.effects = s.effects ++ [.sent (s.client i).birth ((s.pending i).take n)]

/-- Client `i` was sent bytes of what it had pending: the responses that are complete are popped, and
the books are right. -/
structure Sent (i : ℕ) (s t : Server) : Prop where
  spares : Spares i s t
  owner : t.OwnerInv
  plain : (t.client i).Plain
  requestStream : (t.client i).requestStream = (s.client i).requestStream
  progress : (t.client i).progress = (s.client i).progress
  pending : ∃ n, t.pending i = (s.pending i).drop n
  ledger : Ledger (t.client i) (t.pending i) (history (s.client i).birth t.effects)

/-- The bytes that a client was sent are the first of the responses that were generated for it. -/
def SentFromFront (birth : ℕ) (effects : List Effect) : Prop :=
  sentIn (history birth effects) <+: texts (generatedIn (history birth effects))

/-- Sending failed: the socket may have taken bytes that are not popped. -/
structure SendFailed (i : ℕ) (s t : Server) : Prop where
  spares : Spares i s t
  owner : t.OwnerInv
  front : SentFromFront (s.client i).birth t.effects

section

variable {i n : ℕ} {s t : Server}

/-- A ledger says so. -/
theorem Ledger.sentFromFront {client : Client} {pending : List UInt8} {birth : ℕ}
    {effects : List Effect} (h : Ledger client pending (history birth effects))
    (hconnection : acceptingSocketIsConnection client.acceptingSocket = true) :
    SentFromFront birth effects := by
  obtain ⟨entries, part, done, rest, h⟩ := h
  exact ⟨pending, h.sent_append_pending hconnection⟩

theorem SendFailed.of_taken {taken : List UInt8} (hspares : Spares i s t) (howner : t.OwnerInv)
    (hconnection : acceptingSocketIsConnection (s.client i).acceptingSocket = true)
    (hledger : Ledger (s.client i) (s.pending i) (history (s.client i).birth s.effects))
    (htaken : taken <+: s.pending i)
    (heffects : t.effects = s.effects ++ [.sent (s.client i).birth taken]) : SendFailed i s t := by
  obtain ⟨entries, part, done, rest, h⟩ := hledger
  refine ⟨hspares, howner, ?_⟩
  have hsent : history (s.client i).birth [.sent (s.client i).birth taken]
      = [.sent (s.client i).birth taken] :=
    history_of_own fun effect heffect => List.mem_singleton.mp heffect ▸ rfl
  have hnone : generatedIn [.sent (s.client i).birth taken] = [] := rfl
  have htold : sentIn [.sent (s.client i).birth taken] = taken := List.append_nil taken
  rw [SentFromFront, heffects, history_append, hsent, sentIn_append, generatedIn_append, hnone, htold,
    List.append_nil, ← h.sent_append_pending hconnection]
  exact (List.prefix_append_right_inj _).mpr htaken

/-- Who is named the owner is the owner. -/
theorem Server.OwnerInv.of_owns (h : s.OwnerInv) (howns : s.owns i = true) : s.Owns i := by
  rcases h with hnone | ⟨k, hk⟩
  · rw [Server.owns_of_none hnone] at howns
    cases howns
  · rw [(hk.owns_eq i).mp howns]
    exact hk

theorem Sent.trans {u : Server} (h : Sent i s t) (h' : Sent i t u) : Sent i s u := by
  obtain ⟨n, hn⟩ := h.pending
  obtain ⟨m, hm⟩ := h'.pending
  refine ⟨h.spares.trans h'.spares, h'.owner, h'.plain, h'.requestStream.trans h.requestStream,
    h'.progress.trans h.progress, ⟨n + m, ?_⟩, ?_⟩
  · rw [hm, hn, List.drop_drop]
  · rw [← h.spares.self.birth]
    exact h'.ledger

/-- Nothing was sent. -/
theorem Sent.refl (howner : s.OwnerInv) (hplain : (s.client i).Plain)
    (hledger : Ledger (s.client i) (s.pending i) (history (s.client i).birth s.effects)) :
    Sent i s s :=
  ⟨.refl i s, howner, hplain, rfl, rfl, ⟨0, rfl⟩, hledger⟩

/-- Sending went on, and failed. -/
theorem Sent.failed {u : Server} (h : Sent i s t) (h' : SendFailed i t u) : SendFailed i s u := by
  refine ⟨h.spares.trans h'.spares, h'.owner, ?_⟩
  rw [← h.spares.self.birth]
  exact h'.front

/-- The responses all of whose bytes were taken are popped, without an error. -/
theorem Taken.popped (h : Taken i n s t) (hi : i < s.clients.elements.length)
    (hplain : (s.client i).Plain)
    (hledger : Ledger (s.client i) (s.pending i) (history (s.client i).birth s.effects)) (now : ℤ) :
    ∃ u, serverPopResponses i now n t = .ok () u ∧ Sent i s u := by
  obtain ⟨stream, hvalid, hclient⟩ := h.client_eq
  have hlt : i < t.clients.elements.length := h.spares.length ▸ hi
  have hsame : SameBooks (s.client i) (t.client i) := by
    rw [hclient]
    exact ⟨rfl, rfl, rfl⟩
  -- the books of what was sent say which responses are gone
  obtain ⟨gone, queue, response, count, hloop, hbooks⟩ :=
    (hledger.congr hsame h.spares.self.acceptingSocket).sent h.le now
      (show generatedIn [.sent (s.client i).birth ((s.pending i).take n)] = [] from rfl) rfl
      (fun _ => List.append_nil _) fun bytes hbytes => absurd hbytes List.not_mem_nil
  have hbirth : (t.client i).birth = (s.client i).birth := h.spares.self.birth
  have hown : ∀ effect ∈ poppedEffects (t.client i).birth gone,
      effect.birth = some (t.client i).birth := by
    intro effect heffect
    obtain ⟨entry, -, rfl⟩ := List.mem_map.mp heffect
    rfl
  obtain ⟨d, hd⟩ : ∃ d : Client, d = (t.client i).popped now gone queue response count := ⟨_, rfl⟩
  rw [← hd] at hloop hbooks
  have hsame' : (t.client i).SameIdentity d := hd ▸ ⟨rfl, rfl, rfl, rfl, rfl⟩
  have hstream : d.responseStream = (t.client i).responseStream := hd ▸ rfl
  -- the client is written and its responses are told; nothing of it is output
  obtain ⟨u, hu⟩ : ∃ u : Server, u = { t.setClient i d with
      effects := t.effects ++ poppedEffects (t.client i).birth gone } := ⟨_, rfl⟩
  have houtput : SameOutput t u := hu ▸ .setClient hlt hsame' hstream _
  have hclient' : u.client i = d := by
    rw [hu]
    exact Server.client_setClient hlt d
  have hwritten : Spares i t (t.setClient i d) := .setClient hlt hsame'
  have htold : Spares i (t.setClient i d) u := by
    rw [hu]
    refine Spares.tell (s := t.setClient i d) fun effect heffect => ?_
    rw [hwritten.self.birth]
    exact hown effect heffect
  have hd' : d = { s.client i with
      responseStream := stream
      responseQueue := queue
      response := response
      responseCount := count
      lastResponseComplete := if gone = [] then (s.client i).lastResponseComplete else now } := by
    rw [hd, hclient]
    rfl
  refine ⟨u, ?_, (h.spares.trans hwritten).trans htold, houtput.ownerInv h.owner, ?_, ?_, ?_, ⟨n, ?_⟩,
    ?_⟩
  · rw [serverPopResponses, hloop, hu]
    rfl
  · rw [hclient', hd']
    exact ⟨hplain.operational, hplain.ssl, hplain.requests, hplain.parse, hvalid⟩
  · rw [hclient', hd']
  · rw [hclient', hd']
  · rw [houtput.pending, h.pending]
  · -- what is told of the client: the bytes, and then the responses
    have hhistory : history (s.client i).birth u.effects
        = history (s.client i).birth s.effects ++ [.sent (s.client i).birth ((s.pending i).take n)]
          ++ poppedEffects (t.client i).birth gone := by
      have hpopped : history (s.client i).birth (poppedEffects (t.client i).birth gone)
          = poppedEffects (t.client i).birth gone := history_of_own (hbirth ▸ hown)
      have hsent : history (s.client i).birth [.sent (s.client i).birth ((s.pending i).take n)]
          = [.sent (s.client i).birth ((s.pending i).take n)] :=
        history_of_own fun effect heffect => List.mem_singleton.mp heffect ▸ rfl
      rw [hu]
      show history _ (t.effects ++ _) = _
      rw [h.effects, history_append, history_append, hpopped, hsent]
    rw [hclient', houtput.pending, h.pending, hhistory]
    exact hbooks

end

/-! ## Sending the streams -/

section

variable {i : ℕ} {v : Visit}

/-- The socket takes bytes from the front of the stream, which is advanced past them. -/
theorem sendStream_spec (answers : SendAnswer × SendAnswer) (advance : ℕ → Server → Server)
    (stream : ConstantValue) :
    (sendStream i answers advance stream v).Ensures
      (fun n w => ∃ taken, taken <+: stream.bytes ∧ n = taken.length ∧
        w.server = (advance n v.server).emit (.sent (v.server.ownPoll i).birth taken))
      fun e w => e.eef = .closeLog ∧ ∃ taken, taken <+: stream.bytes ∧
        w.server = (advance taken.length v.server).emit (.sent (v.server.ownPoll i).birth taken) := by
  unfold sendStream
  refine (serverSendStream_spec answers stream).handle (fun _ r hr => ?_) fun e r hr => ?_
  · exact ⟨r.taken, hr, rfl, rfl⟩
  · exact ⟨rfl, r.taken, hr, rfl⟩

/-- The short response stream after some of it was sent still belongs to its owner, or is empty. -/
theorem Server.Owns.advanced {s : Server} (h : s.Owns i) (taken : List UInt8) :
    ((advanceShort taken.length s).emit (.sent (s.client i).birth taken)).Owns i ∧
      Spares i s ((advanceShort taken.length s).emit (.sent (s.client i).birth taken)) := by
  have hothers : ∀ j, j ≠ i → s.owns j = false := fun j hj =>
    Bool.eq_false_iff.mpr fun howns => hj ((h.owns_eq j).mp howns)
  have hread := TextValue.read_advance h.readable taken.length
  have hshort : Spares i s (advanceShort taken.length s) := Spares.short hothers (.inr h.owner)
  exact ⟨⟨h.owner, h.lt, h.live, h.plain, h.valid, h.empty, hread.2⟩, hshort.trans (.emit rfl)⟩

/-- `server_send_short_response_stream` sends bytes of what its owner has pending. -/
theorem serverSendShortResponseStream_ensures (howns : v.server.Owns i)
    (hplain : (v.server.client i).Plain)
    (hconnection : acceptingSocketIsConnection (v.server.client i).acceptingSocket = true)
    (hbirth : (v.server.ownPoll i).birth = (v.server.client i).birth)
    (hledger : Ledger (v.server.client i) (v.server.pending i)
      (history (v.server.client i).birth v.server.effects)) (now : ℤ)
    (answers : SendAnswer × SendAnswer) :
    (serverSendShortResponseStream i now answers v).Ensures
      (fun _ w => Sent i v.server w.server)
      fun e w => e.eef = .closeLog ∧ SendFailed i v.server w.server ∧
        (w.server.client i).ssl = false := by
  have hpending := howns.pending_eq
  unfold serverSendShortResponseStream sendValue
  rw [if_pos hconnection]
  refine (sendStream_spec answers advanceShort _).andThen (fun n w hw => ?_) fun e w hw => ?_
  swap
  · -- the call failed, maybe after some bytes were taken
    obtain ⟨he, taken, htaken, hserver⟩ := hw
    rw [hbirth] at hserver
    rw [← hpending] at htaken
    obtain ⟨howns', hspares⟩ := howns.advanced taken
    rw [← hserver] at howns' hspares
    exact ⟨he, .of_taken hspares (.inr ⟨i, howns'⟩) hconnection hledger htaken (hserver ▸ rfl),
      hserver ▸ hplain.ssl⟩
  obtain ⟨taken, htaken, rfl, hserver⟩ := hw
  rw [hbirth] at hserver
  rw [← hpending] at htaken
  obtain ⟨howns', hspares⟩ := howns.advanced taken
  rw [← hserver] at howns' hspares
  have heffects : w.server.effects = v.server.effects ++
      [.sent (v.server.client i).birth ((v.server.pending i).take taken.length)] := by
    rw [← List.prefix_iff_eq_take.mp htaken, hserver]
    rfl
  have hclient : w.server.client i = v.server.client i := hserver ▸ rfl
  -- what is left is what the short stream reads from then on
  have hleft : w.server.pending i = (v.server.pending i).drop taken.length := by
    rw [howns'.pending_eq, hpending, hserver]
    exact (TextValue.read_advance howns.readable taken.length).1
  -- the short response stream is given up when all of it was sent
  obtain ⟨u, hu⟩ : ∃ u : Server, u = if w.server.shortResponseStream.size = 0 then
      { w.server with shortResponseStreamOwner := none } else w.server := ⟨_, rfl⟩
  have htaken' : Taken i taken.length v.server u := by
    by_cases hzero : w.server.shortResponseStream.size = 0
    · rw [if_pos hzero] at hu
      have hnone : u.shortResponseStreamOwner = none := by rw [hu]
      have hothers : ∀ j, j ≠ i → w.server.owns j = false := fun j hj =>
        Bool.eq_false_iff.mpr fun hj' => hj ((howns'.owns_eq j).mp hj')
      have hgiven : Spares i w.server u := hu ▸ Spares.short hothers (.inl rfl)
      have hclient' : u.client i = v.server.client i := by
        rw [hu]
        exact hclient
      have hnothing : (v.server.pending i).drop taken.length = [] := by
        rw [← hleft, howns'.pending_eq]
        refine List.eq_nil_of_length_eq_zero ?_
        rw [← valueSize_eq, howns'.readable, hzero]
      refine ⟨hspares.trans hgiven, .inl hnone, ⟨_, howns.valid, hclient'⟩, htaken.length_le, ?_, ?_⟩
      · rw [Server.pending_of_not_owns (Server.owns_of_none hnone i), hclient',
          howns.content_eq_nil, hnothing]
      · rw [hu]
        exact heffects
    · rw [if_neg hzero] at hu
      rw [hu]
      exact ⟨hspares, .inr ⟨i, howns'⟩, ⟨_, howns.valid, hclient⟩, htaken.length_le, hleft, heffects⟩
  obtain ⟨x, hpop, hsent⟩ := htaken'.popped howns.lt hplain hledger now
  have hserver' : (if w.server.shortResponseStream.size = 0 then
      { w with server.shortResponseStreamOwner := none } else w : Visit).server = u := by
    rw [hu]
    split_ifs <;> rfl
  show (Visit.onServer _ _).Ensures _ _
  rw [Visit.onServer, hserver', hpop]
  exact hsent

theorem popLong_ok {s : Server} {n : ℕ} {stream : Ring}
    (h : ringPop (s.client i).responseStream n = .ok () stream) :
    popLong i n s = .ok () (s.setClient i { s.client i with responseStream := stream }) := by
  rw [popLong, Server.onClient, h]
  rfl

/-- `server_send_long_output_buffer` sends bytes of what a client has pending that does not own the short
response stream. -/
theorem serverSendLongOutputBuffer_ensures (hi : i < v.server.clients.elements.length)
    (howner : v.server.OwnerInv) (hnot : v.server.owns i = false) (hplain : (v.server.client i).Plain)
    (hconnection : acceptingSocketIsConnection (v.server.client i).acceptingSocket = true)
    (hbirth : (v.server.ownPoll i).birth = (v.server.client i).birth)
    (hledger : Ledger (v.server.client i) (v.server.pending i)
      (history (v.server.client i).birth v.server.effects)) (now : ℤ)
    (answers : SendAnswer × SendAnswer) :
    (serverSendLongOutputBuffer i now answers v).Ensures
      (fun _ w => Sent i v.server w.server)
      fun e w => e.eef = .closeLog ∧ SendFailed i v.server w.server ∧
        (w.server.client i).ssl = false := by
  have hpending : v.server.pending i = ringContent (v.server.client i).responseStream :=
    Server.pending_of_not_owns hnot
  have hall : ((ringGetAll (v.server.client i).responseStream).read
      (v.server.client i).responseStream.p).bytes = v.server.pending i := by
    rw [hpending, (ringGetAll_spec hplain.stream.toSound).1]
  unfold serverSendLongOutputBuffer sendValue
  dsimp only
  rw [if_pos hconnection]
  refine (sendStream_spec answers (fun _ s => s) _).andThen (fun n w hw => ?_) fun e w hw => ?_
  swap
  · -- the call failed, maybe after some bytes were taken
    obtain ⟨he, taken, htaken, hserver⟩ := hw
    rw [hbirth] at hserver
    rw [hall] at htaken
    refine ⟨he, .of_taken (hserver ▸ .emit rfl) ?_ hconnection hledger htaken (hserver ▸ rfl),
      hserver ▸ hplain.ssl⟩
    rw [hserver]
    exact (SameOutput.emit v.server _).ownerInv howner
  obtain ⟨taken, htaken, rfl, hserver⟩ := hw
  rw [hbirth] at hserver
  rw [hall] at htaken
  have hclient : w.server.client i = v.server.client i := hserver ▸ rfl
  -- as many bytes are popped as were taken
  have hlength : taken.length ≤ (v.server.client i).responseStream.size := by
    rw [← hplain.stream.length_content, ← hpending]
    exact htaken.length_le
  obtain ⟨_, stream, hpop, hvalid, hcontent, -⟩ :=
    ((ringPop_spec hplain.stream taken.length).mono (fun _ _ hr => hr)
      fun _ _ hr => absurd hlength (Nat.not_le.mpr hr.2)).exists_ok
  obtain ⟨u, hu⟩ : ∃ u : Server, u = w.server.setClient i
    { w.server.client i with responseStream := stream } := ⟨_, rfl⟩
  have hlt : i < w.server.clients.elements.length := hserver ▸ hi
  have hclient' : u.client i = { v.server.client i with responseStream := stream } := by
    rw [hu, Server.client_setClient hlt, hclient]
  have htold : Spares i v.server w.server := hserver ▸ .emit rfl
  have hwritten : Spares i w.server u := hu ▸ .setClient hlt ⟨rfl, rfl, rfl, rfl, rfl⟩
  have hnot' : w.server.owns i = false := by
    rw [hserver]
    exact hnot
  have howner' : w.server.OwnerInv := by
    rw [hserver]
    exact (SameOutput.emit v.server _).ownerInv howner
  have htaken' : Taken i taken.length v.server u := by
    refine ⟨htold.trans hwritten, hu ▸ howner'.setClient_of_not_owns hnot' _,
      ⟨stream, hvalid, hclient'⟩, htaken.length_le, ?_, ?_⟩
    · rw [Server.pending_of_not_owns (by rw [hu]; exact hnot'), hclient', hpending]
      exact hcontent
    · rw [← List.prefix_iff_eq_take.mp htaken, hu, Server.effects_setClient, hserver]
      rfl
  -- the responses that are gone are popped last
  obtain ⟨x, hpopped, hsent⟩ := htaken'.popped hi hplain hledger now
  rw [Visit.onServer, popLong_ok (by rw [hclient]; exact hpop), Outcome.mapState_ok,
    Outcome.andThen_ok, Visit.onServer, ← hu]
  dsimp only
  rw [hpopped]
  exact hsent

/-- The time that is noted at the end does not matter. -/
theorem Sent.noted {s t : Server} (h : Sent i s t) (hi : i < s.clients.elements.length) (now : ℤ) :
    Sent i s (t.setClient i { t.client i with lastResponseStreamNotFull := now }) := by
  have hlt : i < t.clients.elements.length := h.spares.length ▸ hi
  have hclient := Server.client_setClient hlt { t.client i with lastResponseStreamNotFull := now }
  have hsame : (t.client i).SameIdentity { t.client i with lastResponseStreamNotFull := now } :=
    ⟨rfl, rfl, rfl, rfl, rfl⟩
  have houtput : SameOutput t (t.setClient i { t.client i with lastResponseStreamNotFull := now }) :=
    .setClient hlt hsame rfl t.effects
  have hplain := h.plain
  refine ⟨h.spares.trans (.setClient hlt hsame), houtput.ownerInv h.owner, ?_, ?_, ?_, ?_, ?_⟩
  · rw [hclient]
    exact ⟨hplain.operational, hplain.ssl, hplain.requests, hplain.parse, hplain.stream⟩
  · rw [hclient, ← h.requestStream]
  · rw [hclient, ← h.progress]
  · rw [houtput.pending]
    exact h.pending
  · rw [hclient, houtput.pending]
    exact h.ledger.congr ⟨rfl, rfl, rfl⟩ rfl

/-- `server_send_traffic` sends bytes of what a client has pending, and fails only when `send()`
does. -/
theorem serverSendTraffic_ensures (hi : i < v.server.clients.elements.length)
    (howner : v.server.OwnerInv) (hplain : (v.server.client i).Plain)
    (hconnection : acceptingSocketIsConnection (v.server.client i).acceptingSocket = true)
    (hbirth : (v.server.ownPoll i).birth = (v.server.client i).birth)
    (hledger : Ledger (v.server.client i) (v.server.pending i)
      (history (v.server.client i).birth v.server.effects)) (now : ℤ) (answers : SendAnswers) :
    (serverSendTraffic i now answers v).Ensures
      (fun _ w => Sent i v.server w.server)
      fun e w => e.eef = .closeLog ∧ SendFailed i v.server w.server ∧
        (w.server.client i).ssl = false := by
  -- the time that is noted at the end is not in the books
  have hend : ∀ (w : Visit) (size : ℕ), Sent i v.server w.server →
      (if size + (w.server.client i).responseStream.size < maxResponseStreamSize then
        (.ok () { w with server := (w.server.setClient i
          { w.server.client i with lastResponseStreamNotFull := now }) } : Outcome ExError Visit Unit)
      else .ok () w).Ensures (fun _ w => Sent i v.server w.server)
        fun e w => e.eef = .closeLog ∧ SendFailed i v.server w.server ∧
          (w.server.client i).ssl = false := by
    intro w size hsent
    split_ifs
    · exact hsent.noted hi now
    · exact hsent
  unfold serverSendTraffic
  -- what is left for the client's own stream
  have hlong : ∀ w : Visit, Sent i v.server w.server →
      (if w.flags.saturated = false ∧ (w.server.client i).responseStream.size > 0 then
        serverSendLongOutputBuffer i now answers.long w
      else .ok () w).Ensures (fun _ w => Sent i v.server w.server)
        fun e w => e.eef = .closeLog ∧ SendFailed i v.server w.server ∧
          (w.server.client i).ssl = false := by
    intro w hsent
    have hself := hsent.spares.self
    by_cases hguard : w.flags.saturated = false ∧ (w.server.client i).responseStream.size > 0
    · rw [if_pos hguard]
      have hnot : w.server.owns i = false := by
        refine Bool.eq_false_iff.mpr fun howns => ?_
        have := (hsent.owner.of_owns howns).empty
        omega
      have hbirth' : (w.server.ownPoll i).birth = (w.server.client i).birth := by
        rw [Server.ownPoll, Server.poll, hsent.spares.polls, hself.birth]
        exact hbirth
      refine (serverSendLongOutputBuffer_ensures (hsent.spares.length ▸ hi) hsent.owner hnot hsent.plain
        (hself.acceptingSocket ▸ hconnection) hbirth' (hself.birth ▸ hsent.ledger) now
        answers.long).mono (fun _ x hx => hsent.trans hx) fun _ x hx => ⟨hx.1, hsent.failed hx.2.1, hx.2.2⟩
    · rw [if_neg hguard]
      exact hsent
  -- what is in the short stream is older, and goes first
  by_cases howns : v.server.owns i = true
  · rw [if_pos howns]
    have hshort : ((serverSendShortResponseStream i now answers.short v).andThen fun _ v =>
        .ok v.server.shortResponseStream.size v).Ensures (fun _ w => Sent i v.server w.server)
        fun e w => e.eef = .closeLog ∧ SendFailed i v.server w.server ∧
          (w.server.client i).ssl = false :=
      (serverSendShortResponseStream_ensures (howner.of_owns howns) hplain hconnection hbirth hledger
        now answers.short).andThen (fun _ _ hw => hw) fun _ _ hw => hw
    exact hshort.andThen
      (fun size w hw => (hlong w hw).andThen (fun _ x hx => hend x size hx) fun _ _ hx => hx)
      fun _ _ hw => hw
  · rw [if_neg howns, Outcome.andThen_ok]
    exact (hlong v (.refl howner hplain hledger)).andThen (fun _ w hw => hend w 0 hw) fun _ _ hw => hw

end

end Twinkleshine
