import Twinkleshine.Server.Accept
import Mathlib.Data.List.Forall2

/-!
# The books of a client

A client's output is kept in three places: the bytes that are pending, the entries of the response
queue, and the history of what was generated and sent. `QueueHolds` says what the response queue is,
`Ledger` how it belongs to the history, and the lemmas below say what generating and sending a response
do to both. Reference: `source/server/send.c`, `processor_construct_response` in
`source/processor/processor.c`.
-/

namespace Twinkleshine

open Library

/-! ## Histories -/

/-- The client an effect is about. -/
def Effect.birth : Effect → Option ℕ
  | generated birth .. | sent birth _ | sentTo birth _ | sentFixed birth _ | success birth ..
  | closed birth => some birth
  | refused _ | errorPrinted _ => none

/-- What happened to one client. -/
def history (birth : ℕ) (effects : List Effect) : List Effect :=
  effects.filter fun effect => effect.birth = some birth

/-- A response that was generated, with the words of its request. -/
structure Generated where
  method : List UInt8
  resource : List UInt8
  text : List UInt8
deriving DecidableEq, Repr

/-- The responses that were generated. -/
def generatedIn (effects : List Effect) : List Generated :=
  effects.filterMap fun
    | .generated _ method resource text => some ⟨method, resource, text⟩
    | _ => none

/-- The bytes of responses that a socket took. -/
def sentIn (effects : List Effect) : List UInt8 :=
  effects.flatMap fun
    | .sent _ bytes => bytes
    | _ => []

/-- The chunks that were handed to a socket for messages. -/
def sentToIn (effects : List Effect) : List (List UInt8) :=
  effects.filterMap fun
    | .sentTo _ bytes => some bytes
    | _ => none

/-- The log lines of responses that are sent: their methods and resources. -/
def succeededIn (effects : List Effect) : List (List UInt8 × List UInt8) :=
  effects.filterMap fun
    | .success _ method resource => some (method, resource)
    | _ => none

/-- The concatenation of responses. -/
def texts (responses : List Generated) : List UInt8 := responses.flatMap Generated.text

/-- The words of a response that are logged. -/
def Generated.words (response : Generated) : List UInt8 × List UInt8 :=
  (response.method, response.resource)

@[simp] theorem history_append (birth : ℕ) (effects more : List Effect) :
    history birth (effects ++ more) = history birth effects ++ history birth more :=
  List.filter_append ..

@[simp] theorem generatedIn_append (effects more : List Effect) :
    generatedIn (effects ++ more) = generatedIn effects ++ generatedIn more :=
  List.filterMap_append ..

@[simp] theorem sentIn_append (effects more : List Effect) :
    sentIn (effects ++ more) = sentIn effects ++ sentIn more :=
  List.flatMap_append ..

@[simp] theorem sentToIn_append (effects more : List Effect) :
    sentToIn (effects ++ more) = sentToIn effects ++ sentToIn more :=
  List.filterMap_append ..

@[simp] theorem succeededIn_append (effects more : List Effect) :
    succeededIn (effects ++ more) = succeededIn effects ++ succeededIn more :=
  List.filterMap_append ..

@[simp] theorem texts_append (responses more : List Generated) :
    texts (responses ++ more) = texts responses ++ texts more :=
  List.flatMap_append ..

/-- What happens to others is not part of a client's history. -/
theorem history_of_others {birth : ℕ} {effects : List Effect}
    (h : ∀ effect ∈ effects, effect.birth ≠ some birth) : history birth effects = [] := by
  refine List.filter_eq_nil_iff.mpr fun effect heffect => ?_
  simpa using h effect heffect

/-- What happens to the client alone is all part of its history. -/
theorem history_of_own {birth : ℕ} {effects : List Effect}
    (h : ∀ effect ∈ effects, effect.birth = some birth) : history birth effects = effects := by
  refine List.filter_eq_self.mpr fun effect heffect => ?_
  simpa using h effect heffect

/-! ## The response queue -/

/-- The bytes the entries account for. -/
def totalSize (entries : List ResponseEntry) : ℕ := (entries.map (·.response.streamSize)).sum

/-- The response queue of a client is these entries, as many as it counts; the current response is the
first of them, without the `part` bytes of it that are gone. -/
structure QueueHolds (client : Client) (entries : List ResponseEntry) (part : ℕ) : Prop where
  valid : client.responseQueue.Valid
  content : ringContent client.responseQueue = entries.flatMap ResponseEntry.bytes
  wellFormed : ∀ entry ∈ entries, entry.WellFormed ∧ entry.response.silent = false
  count : client.responseCount = entries.length
  head : ∀ entry ∈ entries.head?, client.response
      = { entry.response with streamSize := entry.response.streamSize - part } ∧
    (part = 0 ∨ part < entry.response.streamSize)
  part_of_nil : entries = [] → part = 0
  chunks : client.response.chunks.limit + sizeofResponse ≤ 2 ^ 63

/-- The book-keeping of a client's responses, apart from the bytes themselves. -/
structure SameBooks (c d : Client) : Prop where
  responseQueue : d.responseQueue = c.responseQueue
  response : d.response = c.response
  responseCount : d.responseCount = c.responseCount

theorem QueueHolds.congr {c d : Client} {entries : List ResponseEntry} {part : ℕ}
    (h : QueueHolds c entries part) (hsame : SameBooks c d) : QueueHolds d entries part := by
  obtain ⟨hqueue, hresponse, hcount⟩ := hsame
  exact ⟨hqueue ▸ h.valid, hqueue ▸ h.content, h.wellFormed, hcount.trans h.count,
    fun entry hentry => hresponse ▸ h.head entry hentry, h.part_of_nil, hresponse ▸ h.chunks⟩

/-- The size of the queue is that of its entries. -/
theorem QueueHolds.size_eq {client : Client} {entries : List ResponseEntry} {part : ℕ}
    (h : QueueHolds client entries part) :
    client.responseQueue.size = (entries.flatMap ResponseEntry.bytes).length := by
  rw [← h.valid.length_content, h.content]

/-- An entry in a queue is small. -/
theorem limit_le_of_mem {queue : Ring} (hvalid : queue.Valid) {entries : List ResponseEntry}
    (hcontent : ringContent queue = entries.flatMap ResponseEntry.bytes) {entry : ResponseEntry}
    (hwell : entry.WellFormed) (hentry : entry ∈ entries) :
    entry.response.chunks.limit + sizeofResponse ≤ 2 ^ 63 := by
  have hle := hvalid.size_le
  have hcap := hvalid.capacity_le
  have hmem : entry.bytes.length ≤ queue.size := by
    obtain ⟨before, after, rfl⟩ := List.append_of_mem hentry
    rw [← hvalid.length_content, hcontent]
    simp only [List.flatMap_append, List.flatMap_cons, List.length_append]
    omega
  rw [entry.length_bytes, ResponseEntry.words] at hmem
  rw [hwell.chunks, ValueLocation.limit]
  simp only [List.length_append] at hmem ⊢
  omega

/-! ## Popping responses -/

section

variable {client : Client} {entry : ResponseEntry} {entries : List ResponseEntry} {part : ℕ}

/-- `server_pop_response` takes the first entry out and logs the words of its request. -/
theorem serverPopResponse_spec (h : QueueHolds client (entry :: entries) part)
    (effects : List Effect) : ∃ queue : Ring,
    serverPopResponse ⟨client, effects⟩ = .ok () ⟨{ client with responseQueue := queue },
      effects ++ [.success client.birth entry.method entry.resource]⟩ ∧
    queue.Valid ∧ ringContent queue = entries.flatMap ResponseEntry.bytes := by
  obtain ⟨⟨hwell, hsilent⟩, -⟩ := List.forall_mem_cons.mp h.wellFormed
  obtain ⟨hresponse, -⟩ := h.head entry rfl
  have hcontent : ringContent client.responseQueue
      = entry.response.encode ++ (entry.words ++ entries.flatMap ResponseEntry.bytes) := by
    rw [h.content, List.flatMap_cons, ResponseEntry.bytes, List.append_assoc]
  have hsize := h.size_eq
  rw [List.flatMap_cons, List.length_append, entry.length_bytes] at hsize
  -- the structure
  obtain ⟨_, q, hpop, hq, hqcontent, hqsize, -⟩ :=
    ((ringPop_spec h.valid sizeofResponse).mono (fun _ _ hr => hr)
      fun _ _ hr => absurd hr.2 (by omega)).exists_ok
  rw [hcontent, List.drop_left' entry.response.length_encode] at hqcontent
  -- the words of the request
  have hwords : entry.words = entry.method ++ (entry.resource ++ (entry.protocol ++ entry.chunks)) := by
    simp only [ResponseEntry.words, List.append_assoc]
  have hlength : entry.words.length = entry.method.length + entry.resource.length +
      entry.protocol.length + entry.chunks.length := by
    simp only [ResponseEntry.words, List.length_append]
  obtain ⟨method, hmethod, hmbytes⟩ := ringLookup_spec hq.toSound hq.size_lt
    (show client.response.method.limit ≤ q.size by
      rw [hresponse, ValueLocation.limit, hwell.method]
      dsimp only
      omega)
  obtain ⟨resource, hresource, hrbytes⟩ := ringLookup_spec hq.toSound hq.size_lt
    (show client.response.resource.limit ≤ q.size by
      rw [hresponse, ValueLocation.limit, hwell.resource]
      dsimp only
      omega)
  have hmethod' : method.bytes = entry.method := by
    rw [hmbytes, hresponse, hqcontent, segment, ValueLocation.start, hwell.method, hwords]
    simp only [Bool.false_eq_true, if_false, List.drop_zero, List.append_assoc]
    exact List.take_left
  have hresource' : resource.bytes = entry.resource := by
    rw [hrbytes, hresponse, hqcontent, segment, ValueLocation.start, hwell.resource, hwords]
    simp only [Bool.false_eq_true, if_false, List.append_assoc]
    rw [List.drop_left, List.take_left]
  -- what follows the structure
  obtain ⟨_, r, hpop', hr, hrcontent, -⟩ :=
    ((ringPop_spec hq entry.response.size).mono (fun _ _ hr => hr)
      fun _ _ hr => absurd hr.2 (by rw [hwell.size]; omega)).exists_ok
  rw [hqcontent, hwell.size, List.drop_left] at hrcontent
  refine ⟨r, ?_, hr, hrcontent⟩
  have hrsilent : client.response.silent = false := by rw [hresponse, hsilent]
  have hrsize : client.response.size = entry.response.size := by rw [hresponse]
  simp only [serverPopResponse, hpop, Outcome.mapState_ok, Outcome.andThen_ok, hrsilent,
    Bool.false_eq_true, if_false, hmethod, hresource, hrsize, hpop', hmethod', hresource']

/-- The next entry becomes the current response. -/
theorem nextResponse_spec (client : Client) (hvalid : client.responseQueue.Valid)
    (hcontent : ringContent client.responseQueue = entries.flatMap ResponseEntry.bytes)
    (hwell : ∀ entry ∈ entries, entry.WellFormed ∧ entry.response.silent = false)
    (hcount : client.responseCount = entries.length)
    (hchunks : client.response.chunks.limit + sizeofResponse ≤ 2 ^ 63) (effects : List Effect) :
    ∃ response, nextResponse ⟨client, effects⟩
        = .ok () ⟨{ client with response := response }, effects⟩ ∧
      QueueHolds { client with response := response } entries 0 := by
  have hlength := hvalid.length_content
  rw [hcontent] at hlength
  rcases entries with _ | ⟨entry, entries⟩
  · refine ⟨client.response, ?_, hvalid, hcontent, hwell, hcount, ?_, fun _ => rfl, hchunks⟩
    · rw [nextResponse, if_neg]
      rw [← hlength]
      exact Nat.not_lt_zero 0
    · intro entry hentry
      cases hentry
  · rw [List.flatMap_cons, List.length_append, entry.length_bytes] at hlength
    obtain ⟨value, hvalue, hbytes⟩ := ringLookup_spec hvalid.toSound hvalid.size_lt
      (show (⟨0, sizeofResponse⟩ : ValueLocation).limit ≤ client.responseQueue.size by
        simp only [ValueLocation.limit]
        omega)
    -- the structure in front of the queue is that of the first entry
    have hdecode : Response.decode (valueRead value) = entry.response := by
      have hread : valueRead value = entry.response.encode := by
        rw [valueRead_eq, hbytes, hcontent, segment, ValueLocation.start, List.flatMap_cons,
          ResponseEntry.bytes, List.append_assoc]
        simp only [Bool.false_eq_true, if_false, List.drop_zero]
        exact List.take_left' entry.response.length_encode
      rw [hread, ← List.append_nil entry.response.encode]
      exact Response.decode_encode (hwell entry List.mem_cons_self).1.small []
    have hsizeof : sizeofResponse = 88 := rfl
    have hholds : QueueHolds { client with response := entry.response } (entry :: entries) 0 := by
      refine ⟨hvalid, hcontent, hwell, hcount, ?_, fun _ => rfl,
        limit_le_of_mem hvalid hcontent (hwell entry List.mem_cons_self).1 List.mem_cons_self⟩
      intro e he
      obtain rfl : entry = e := Option.some.inj he
      exact ⟨rfl, .inl rfl⟩
    refine ⟨entry.response, ?_, hholds⟩
    rw [nextResponse, if_pos (by dsimp only; omega), hvalue]
    dsimp only
    rw [hdecode]

/-- A client whose first responses were popped: nothing but the books and the time of the last
completed response changed. -/
def Client.popped (client : Client) (now : ℤ) (gone : List ResponseEntry) (queue : Ring)
    (response : Response) (responseCount : ℕ) : Client :=
  { client with
    responseQueue := queue
    response := response
    responseCount := responseCount
    lastResponseComplete := if gone = [] then client.lastResponseComplete else now }

/-- The effects of popping responses. -/
def poppedEffects (birth : ℕ) (gone : List ResponseEntry) : List Effect :=
  gone.map fun entry => .success birth entry.method entry.resource

/-- One entry popped, and then the others. -/
theorem Client.popped_popped (client : Client) (now : ℤ) (entry : ResponseEntry)
    (gone : List ResponseEntry) (queue queue' : Ring) (response response' : Response) (n m : ℕ) :
    (client.popped now [entry] queue response n).popped now gone queue' response' m
      = client.popped now (entry :: gone) queue' response' m := by
  simp only [Client.popped, List.cons_ne_nil, if_false, ite_self]

/-- No entry popped. -/
theorem Client.popped_nil (client : Client) (now : ℤ) :
    client.popped now [] client.responseQueue client.response client.responseCount = client := rfl

/-- A part of the first response is gone. -/
theorem QueueHolds.advance {entry : ResponseEntry} (h : QueueHolds client (entry :: entries) part) {sent : ℕ}
    (hpos : 0 < sent) (hlt : sent < client.response.streamSize) (now : ℤ) :
    QueueHolds (client.popped now [] client.responseQueue
      { client.response with streamSize := client.response.streamSize - sent } client.responseCount)
      (entry :: entries) (part + sent) := by
  obtain ⟨hresponse, hpart⟩ := h.head entry rfl
  have hstream : client.response.streamSize = entry.response.streamSize - part := by
    rw [hresponse]
  refine ⟨h.valid, h.content, h.wellFormed, h.count, ?_, fun hnil => ?_, h.chunks⟩
  · intro e he
    obtain rfl : entry = e := Option.some.inj he
    refine ⟨?_, .inr (by omega)⟩
    show ({ client.response with streamSize := client.response.streamSize - sent } : Response) = _
    rw [hresponse, Nat.sub_sub]
  · cases hnil

/-- The first response is gone: it is taken out of the queue, and the next one becomes the current one. -/
theorem popResponsesLoop_gone {entry : ResponseEntry} (h : QueueHolds client (entry :: entries) part)
    (now : ℤ) (fuel : ℕ) {sent : ℕ} (hpos : sent > 0) (hgone : sent ≥ client.response.streamSize)
    (effects : List Effect) :
    ∃ queue response, popResponsesLoop now (fuel + 1) sent ⟨client, effects⟩
        = popResponsesLoop now fuel (sent - client.response.streamSize)
            ⟨client.popped now [entry] queue response entries.length,
              effects ++ poppedEffects client.birth [entry]⟩ ∧
      QueueHolds (client.popped now [entry] queue response entries.length) entries 0 := by
  obtain ⟨queue, hpop, hqueue, hcontent⟩ := serverPopResponse_spec h effects
  have hcount : client.responseCount - 1 = entries.length := by
    rw [h.count, List.length_cons, Nat.add_sub_cancel]
  set waiting : Client := { client with
    responseQueue := queue
    lastResponseComplete := now
    responseCount := client.responseCount - 1
    response := { client.response with streamSize := 0 } } with hwaiting
  obtain ⟨response, hnext, hholds⟩ := nextResponse_spec waiting hqueue hcontent
    (fun e he => h.wellFormed e (List.mem_cons_of_mem _ he)) hcount h.chunks
    (effects ++ poppedEffects client.birth [entry])
  have hpopped : { waiting with response := response }
      = client.popped now [entry] queue response entries.length := by
    rw [hwaiting, Client.popped, if_neg (List.cons_ne_nil _ _), hcount]
  rw [hpopped] at hnext hholds
  refine ⟨queue, response, ?_, hholds⟩
  rw [popResponsesLoop, if_pos hpos, if_pos hgone, hpop, Outcome.andThen_ok]
  dsimp only
  rw [← hwaiting, show [Effect.success client.birth entry.method entry.resource]
    = poppedEffects client.birth [entry] from rfl, hnext, Outcome.andThen_ok]

/-- Nothing is left to be taken out. -/
theorem popResponsesLoop_nothing (h : QueueHolds client entries part) (now : ℤ) (fuel : ℕ)
    (effects : List Effect) :
    popResponsesLoop now (fuel + 1) 0 ⟨client, effects⟩
        = .ok () ⟨client.popped now [] client.responseQueue client.response entries.length,
            effects ++ poppedEffects client.birth []⟩ ∧
      QueueHolds (client.popped now [] client.responseQueue client.response entries.length) entries part := by
  rw [← h.count, Client.popped_nil, popResponsesLoop, if_neg (Nat.lt_irrefl 0), poppedEffects, List.map_nil,
    List.append_nil]
  exact ⟨rfl, h⟩

/-- When `sent` more bytes are gone, exactly the entries all of whose bytes are gone are popped. -/
theorem popResponsesLoop_spec (now : ℤ) (fuel sent : ℕ) (h : QueueHolds client entries part)
    (hsent : part + sent ≤ totalSize entries) (hfuel : entries.length < fuel)
    (effects : List Effect) :
    ∃ gone rest queue response part', entries = gone ++ rest ∧
      popResponsesLoop now fuel sent ⟨client, effects⟩
        = .ok () ⟨client.popped now gone queue response rest.length,
            effects ++ poppedEffects client.birth gone⟩ ∧
      QueueHolds (client.popped now gone queue response rest.length) rest part' ∧
      totalSize gone + part' = part + sent := by
  induction entries generalizing fuel sent client part effects with
  | nil =>
    obtain ⟨fuel, rfl⟩ : ∃ n, fuel = n + 1 := ⟨fuel - 1, by omega⟩
    obtain rfl : part = 0 := h.part_of_nil rfl
    obtain rfl : sent = 0 := by
      rw [totalSize, List.map_nil, List.sum_nil] at hsent
      omega
    obtain ⟨hloop, hholds⟩ := popResponsesLoop_nothing h now fuel effects
    exact ⟨[], [], _, _, 0, rfl, hloop, hholds, rfl⟩
  | cons entry entries ih =>
    obtain ⟨fuel, rfl⟩ : ∃ n, fuel = n + 1 := ⟨fuel - 1, by omega⟩
    obtain ⟨hresponse, hpart⟩ := h.head entry rfl
    have htotal : totalSize (entry :: entries) = entry.response.streamSize + totalSize entries := by
      rw [totalSize, List.map_cons, List.sum_cons, totalSize]
    have hstream : client.response.streamSize = entry.response.streamSize - part := by
      rw [hresponse]
    rcases Nat.eq_zero_or_pos sent with rfl | hpos
    · -- nothing was sent
      obtain ⟨hloop, hholds⟩ := popResponsesLoop_nothing h now fuel effects
      exact ⟨[], entry :: entries, _, _, part, rfl, hloop, hholds, Nat.zero_add part⟩
    by_cases hgone : sent ≥ client.response.streamSize
    · -- the whole first response is gone, and what was sent behind it belongs to the others
      obtain ⟨queue, response, hstep, hholds⟩ := popResponsesLoop_gone h now fuel hpos hgone effects
      obtain ⟨gone, rest, queue', response', part', rfl, hloop, hrest, hsum⟩ :=
        ih fuel (sent - client.response.streamSize) hholds (by omega)
          (by rw [List.length_cons] at hfuel; omega) (effects ++ poppedEffects client.birth [entry])
      rw [Client.popped_popped] at hloop hrest
      refine ⟨entry :: gone, rest, queue', response', part', rfl, ?_, hrest, ?_⟩
      · rw [hstep, hloop, List.append_assoc]
        rfl
      · rw [totalSize, List.map_cons, List.sum_cons, ← totalSize]
        omega
    · -- a part of the first response is gone
      refine ⟨[], entry :: entries, client.responseQueue,
        { client.response with streamSize := client.response.streamSize - sent }, part + sent, rfl, ?_,
        ?_, Nat.zero_add _⟩
      · rw [popResponsesLoop, if_pos hpos, if_neg hgone, poppedEffects, List.map_nil, List.append_nil,
          ← h.count]
        rfl
      · rw [← h.count]
        exact h.advance hpos (Nat.not_le.mp hgone) now

theorem generatedIn_poppedEffects (birth : ℕ) (gone : List ResponseEntry) :
    generatedIn (poppedEffects birth gone) = [] :=
  List.filterMap_eq_nil_iff.mpr fun effect heffect => by
    obtain ⟨entry, -, rfl⟩ := List.mem_map.mp heffect
    rfl

theorem sentToIn_poppedEffects (birth : ℕ) (gone : List ResponseEntry) :
    sentToIn (poppedEffects birth gone) = [] :=
  List.filterMap_eq_nil_iff.mpr fun effect heffect => by
    obtain ⟨entry, -, rfl⟩ := List.mem_map.mp heffect
    rfl

theorem sentIn_poppedEffects (birth : ℕ) (gone : List ResponseEntry) :
    sentIn (poppedEffects birth gone) = [] :=
  List.flatMap_eq_nil_iff.mpr fun effect heffect => by
    obtain ⟨entry, -, rfl⟩ := List.mem_map.mp heffect
    rfl

theorem succeededIn_poppedEffects (birth : ℕ) (gone : List ResponseEntry) :
    succeededIn (poppedEffects birth gone) = gone.map fun entry => (entry.method, entry.resource) := by
  induction gone with
  | nil => rfl
  | cons entry gone ih =>
    rw [List.map_cons, ← ih]
    rfl

/-- As many rounds as the queue has bytes are enough. -/
theorem QueueHolds.length_lt {part : ℕ} (h : QueueHolds client entries part) :
    entries.length < client.responseQueue.size + 2 := by
  have hle : ∀ l : List ResponseEntry, l.length ≤ (l.flatMap ResponseEntry.bytes).length := by
    intro l
    induction l with
    | nil => exact Nat.zero_le _
    | cons entry l ih =>
      have hsizeof : sizeofResponse = 88 := rfl
      rw [List.flatMap_cons, List.length_append, List.length_cons, entry.length_bytes]
      omega
  have := hle entries
  rw [h.size_eq]
  omega

end

/-! ## The ledger -/

/-- An entry of the queue belongs to a response that was generated. -/
structure ResponseEntry.AccountsFor (entry : ResponseEntry) (response : Generated) : Prop where
  method : entry.method = response.method
  resource : entry.resource = response.resource
  streamSize : entry.response.streamSize = response.text.length

/-- The books of a client agree with its history. Of the responses that were generated, `done` are gone
and logged and `rest` are not; the entries of the queue belong to these, `part` bytes of the first of
them are gone, and what is pending is what is left. -/
structure LedgerWith (client : Client) (pending : List UInt8) (effects : List Effect)
    (entries : List ResponseEntry) (part : ℕ) (done rest : List Generated) : Prop where
  queue : QueueHolds client entries part
  generated : generatedIn effects = done ++ rest
  accounts : List.Forall₂ ResponseEntry.AccountsFor entries rest
  succeeded : succeededIn effects = done.map Generated.words
  pending : pending = (texts rest).drop part
  sent : acceptingSocketIsConnection client.acceptingSocket = true →
    sentIn effects = texts done ++ (texts rest).take part
  sentTo : ∀ bytes ∈ sentToIn effects, bytes <:+: texts (generatedIn effects)

/-- The books of a client agree with its history. -/
def Ledger (client : Client) (pending : List UInt8) (effects : List Effect) : Prop :=
  ∃ entries part done rest, LedgerWith client pending effects entries part done rest

section

variable {client : Client} {pending : List UInt8} {effects : List Effect}
  {entries : List ResponseEntry} {part : ℕ} {done rest : List Generated}

/-- The entries account for the texts. -/
theorem totalSize_eq {entries : List ResponseEntry} {rest : List Generated}
    (h : List.Forall₂ ResponseEntry.AccountsFor entries rest) :
    totalSize entries = (texts rest).length := by
  induction h with
  | nil => rfl
  | cons hhead _ ih =>
    rw [totalSize, List.map_cons, List.sum_cons, ← totalSize, ih, hhead.streamSize, texts, texts,
      List.flatMap_cons, List.length_append]

theorem LedgerWith.part_le (h : LedgerWith client pending effects entries part done rest) :
    part ≤ (texts rest).length := by
  rw [← totalSize_eq h.accounts]
  rcases entries with _ | ⟨entry, entries⟩
  · rw [h.queue.part_of_nil rfl]
    exact Nat.zero_le _
  · obtain ⟨-, hpart⟩ := h.queue.head entry rfl
    rw [totalSize, List.map_cons, List.sum_cons]
    omega

/-- What is pending is what the entries account for, without the part that is gone. -/
theorem LedgerWith.length_pending (h : LedgerWith client pending effects entries part done rest) :
    part + pending.length = totalSize entries := by
  have := h.part_le
  rw [h.pending, List.length_drop, totalSize_eq h.accounts]
  omega

/-- What was sent, followed by what is pending, is what was generated. -/
theorem LedgerWith.sent_append_pending
    (h : LedgerWith client pending effects entries part done rest)
    (hconnection : acceptingSocketIsConnection client.acceptingSocket = true) :
    sentIn effects ++ pending = texts (generatedIn effects) := by
  rw [h.sent hconnection, h.pending, h.generated, texts_append, List.append_assoc,
    List.take_append_drop]

theorem LedgerWith.congr {c d : Client}
    (h : LedgerWith c pending effects entries part done rest) (hsame : SameBooks c d)
    (hsocket : d.acceptingSocket = c.acceptingSocket) :
    LedgerWith d pending effects entries part done rest :=
  ⟨h.queue.congr hsame, h.generated, h.accounts, h.succeeded, h.pending,
    fun hconnection => h.sent (hsocket ▸ hconnection), h.sentTo⟩

theorem Ledger.congr {c d : Client} (h : Ledger c pending effects) (hsame : SameBooks c d)
    (hsocket : d.acceptingSocket = c.acceptingSocket) : Ledger d pending effects := by
  obtain ⟨entries, part, done, rest, h⟩ := h
  exact ⟨entries, part, done, rest, h.congr hsame hsocket⟩

/-- A response is generated: its entry is the last of the queue, and its text is pending after what was
pending before. -/
theorem Ledger.generate {d : Client} (h : Ledger client pending effects) {entry : ResponseEntry}
    {response : Generated} (hwell : entry.WellFormed) (hsilent : entry.response.silent = false)
    (haccounts : entry.AccountsFor response) (hvalid : d.responseQueue.Valid)
    (hcontent : ringContent d.responseQueue = ringContent client.responseQueue ++ entry.bytes)
    (hresponse : d.response = if client.responseCount = 0 then entry.response else client.response)
    (hcount : d.responseCount = client.responseCount + 1)
    (hsocket : d.acceptingSocket = client.acceptingSocket) (birth : ℕ) :
    Ledger d (pending ++ response.text)
      (effects ++ [.generated birth response.method response.resource response.text]) := by
  obtain ⟨entries, part, done, rest, h⟩ := h
  have hle := h.part_le
  have hentries : ringContent d.responseQueue = (entries ++ [entry]).flatMap ResponseEntry.bytes := by
    rw [hcontent, h.queue.content, List.flatMap_append, List.flatMap_singleton]
  have hall : ∀ e ∈ entries ++ [entry], e.WellFormed ∧ e.response.silent = false := by
    intro e he
    rcases List.mem_append.mp he with he | he
    · exact h.queue.wellFormed e he
    · rw [List.mem_singleton.mp he]
      exact ⟨hwell, hsilent⟩
  -- the counters of the new entry stand behind all that was in the queue
  have hlast : entry.response.chunks.limit + sizeofResponse ≤ 2 ^ 63 :=
    limit_le_of_mem hvalid hentries hwell (List.mem_append_right _ List.mem_cons_self)
  have htold : generatedIn [.generated birth response.method response.resource response.text]
      = [response] := rfl
  have htexts : texts (rest ++ [response]) = texts rest ++ response.text := by
    rw [texts_append]
    exact congrArg (texts rest ++ ·) (List.append_nil _)
  refine ⟨entries ++ [entry], part, done, rest ++ [response], ⟨hvalid, hentries, hall, ?_, ?_, ?_, ?_⟩,
    ?_, ?_, ?_, ?_, fun hconnection => ?_, ?_⟩
  · rw [hcount, h.queue.count, List.length_append, List.length_singleton]
  · intro e he
    rcases entries with _ | ⟨first, entries⟩
    · -- the first response there is, so it is the current one
      obtain rfl : entry = e := Option.some.inj he
      obtain rfl : part = 0 := h.queue.part_of_nil rfl
      have hzero : client.responseCount = 0 := h.queue.count
      rw [hresponse, if_pos hzero]
      exact ⟨rfl, .inl rfl⟩
    · have hne : client.responseCount ≠ 0 := by
        rw [h.queue.count]
        exact Nat.succ_ne_zero _
      rw [hresponse, if_neg hne]
      exact h.queue.head e he
  · intro hnil
    simp at hnil
  · rw [hresponse]
    by_cases hzero : client.responseCount = 0
    · rw [if_pos hzero]
      exact hlast
    · rw [if_neg hzero]
      exact h.queue.chunks
  · rw [generatedIn_append, h.generated, htold, List.append_assoc]
  · exact List.rel_append h.accounts (.cons haccounts .nil)
  · rw [succeededIn_append, h.succeeded]
    exact List.append_nil _
  · rw [htexts, h.pending, List.drop_append_of_le_length hle]
  · rw [htexts, List.take_append_of_le_length hle, sentIn_append, h.sent (hsocket ▸ hconnection)]
    exact List.append_nil _
  · intro bytes hbytes
    rw [sentToIn_append] at hbytes
    have hinfix := h.sentTo bytes ((List.mem_append.mp hbytes).resolve_right List.not_mem_nil)
    rw [generatedIn_append, texts_append]
    exact hinfix.trans (List.prefix_append _ _).isInfix

/-- Bytes of what is pending are sent: the responses all of whose bytes are gone are popped and logged,
and the books agree with the history again. `told` is what the sending itself tells. -/
theorem Ledger.sent {sent : ℕ} (h : Ledger client pending effects) (hle : sent ≤ pending.length)
    (now : ℤ) {told : List Effect} (hgenerated : generatedIn told = [])
    (hsucceeded : succeededIn told = [])
    (hsent : acceptingSocketIsConnection client.acceptingSocket = true →
      sentIn told = pending.take sent)
    (hsentTo : ∀ bytes ∈ sentToIn told, bytes <:+: pending) :
    ∃ gone queue response count,
      popResponsesLoop now (client.responseQueue.size + 2) sent ⟨client, []⟩
        = .ok () ⟨client.popped now gone queue response count, poppedEffects client.birth gone⟩ ∧
      Ledger (client.popped now gone queue response count) (pending.drop sent)
        (effects ++ told ++ poppedEffects client.birth gone) := by
  obtain ⟨entries, part, done, rest, h⟩ := h
  have hpart := h.part_le
  have hlength := h.length_pending
  obtain ⟨gone, left, queue, response, part', rfl, hloop, hqueue, hsum⟩ :=
    popResponsesLoop_spec now (client.responseQueue.size + 2) sent h.queue
      (by omega) h.queue.length_lt []
  -- the responses of the popped entries
  obtain ⟨goneOf, leftOf, rfl, hgone, hleft⟩ : ∃ goneOf leftOf, rest = goneOf ++ leftOf ∧
      List.Forall₂ ResponseEntry.AccountsFor gone goneOf ∧
      List.Forall₂ ResponseEntry.AccountsFor left leftOf := by
    refine ⟨rest.take gone.length, rest.drop gone.length, (List.take_append_drop _ _).symm, ?_, ?_⟩
    · have htake := List.forall₂_take gone.length h.accounts
      rwa [List.take_left] at htake
    · have hdrop := List.forall₂_drop gone.length h.accounts
      rwa [List.drop_left] at hdrop
  have hwords : gone.map (fun entry => (entry.method, entry.resource))
      = goneOf.map Generated.words := by
    clear hloop hqueue hsum hlength hpart h
    induction hgone with
    | nil => rfl
    | cons hhead _ ih => rw [List.map_cons, List.map_cons, ih, hhead.method, hhead.resource]; rfl
  -- what was sent ends where the popped texts do, and a part of the next one behind them
  have htotal := totalSize_eq hgone
  have hpassed : part + sent = (texts goneOf).length + part' := by omega
  refine ⟨gone, queue, response, left.length, hloop, left, part', done ++ goneOf, leftOf, hqueue, ?_,
    hleft, ?_, ?_, fun hconnection => ?_, ?_⟩
  · rw [generatedIn_append, generatedIn_append, h.generated, hgenerated,
      generatedIn_poppedEffects, List.append_nil, List.append_nil, List.append_assoc]
  · rw [succeededIn_append, succeededIn_append, h.succeeded, hsucceeded, List.append_nil,
      succeededIn_poppedEffects, hwords, List.map_append]
  · rw [h.pending, List.drop_drop, hpassed, texts_append, List.drop_length_add_append]
  · have hboth : (texts (goneOf ++ leftOf)).take (part + sent)
        = texts goneOf ++ (texts leftOf).take part' := by
      rw [hpassed, texts_append, List.take_length_add_append]
    rw [sentIn_append, sentIn_append, h.sent hconnection, hsent hconnection, h.pending,
      sentIn_poppedEffects, List.append_nil, List.append_assoc, ← List.take_add, hboth, texts_append,
      List.append_assoc]
  · -- a datagram is a piece of what was pending, which is the end of what was generated
    intro bytes hbytes
    rw [sentToIn_append, sentToIn_append, sentToIn_poppedEffects, List.append_nil] at hbytes
    have hsame : texts (generatedIn (effects ++ told ++ poppedEffects client.birth gone))
        = texts (generatedIn effects) := by
      rw [generatedIn_append, generatedIn_append, hgenerated, generatedIn_poppedEffects,
        List.append_nil, List.append_nil]
    rw [hsame]
    rcases List.mem_append.mp hbytes with hold | hnew
    · exact h.sentTo bytes hold
    · refine (hsentTo bytes hnew).trans ?_
      rw [h.pending, h.generated, texts_append done]
      exact ((List.drop_suffix _ _).trans (List.suffix_append _ _)).isInfix

/-- The books of a new client. -/
theorem Ledger.new (index : ℕ) (address : Address) (now : ℤ) (birth : ℕ)
    (state : CryptographyState) :
    Ledger { newClient index address now birth with cryptographyState := state } [] [] := by
  refine ⟨[], 0, [], [], ⟨Ring.zero_valid, rfl, ?_, rfl, ?_, fun _ => rfl, ?_⟩, rfl, .nil, rfl, rfl,
    fun _ => rfl, ?_⟩
  · intro entry hentry
    cases hentry
  · intro entry hentry
    cases hentry
  · show 0 + 0 + sizeofResponse ≤ 2 ^ 63
    decide
  · intro bytes hbytes
    cases hbytes

end

end Twinkleshine
