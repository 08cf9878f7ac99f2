import Twinkleshine.Server.LowLevel

/-!
# Encrypted connections

Reference: `source/cryptography.c`.

OpenSSL is not modelled: its answers are arguments, as the kernel's are. What is modelled is what the
program does with them: how much goes into the response stream, and the silent responses that account
for bytes nobody asked for.
-/

namespace Twinkleshine

open Library

/-! ## Reading from OpenSSL -/

/-- The answers to a `cryptography_pump_to_ring`: for every round that fills what was reserved, and then
how the allocator answers for the round that finds nothing. -/
structure PumpAnswers where
  rounds : List ReceiveAnswers
  last : Realloc

/-- One round of the loop of `cryptography_pump_to_ring`. `BIO_read` never fails: it stops the loop. -/
def cryptographyPumpRound (ssl : Bool) (answers : ReceiveAnswers) (ring : Ring) :
    Outcome ExError Ring Reception :=
  (ringReserve ring (ring.size + minAvailableRequestStream) answers.realloc).handle
    (fun e ring => .error (extend .closeLog e) ring) fun _ ring =>
  (ringPushGet ring minAvailableRequestStream).handle
    (fun e ring => .error (extend .closeLogDie e) ring) fun value ring =>
  (readParts (value.reads answers.reads)).handle
    (fun errno r =>
      let ring := ring.write value r.bytes
      if ssl then .error (extend .closeLog s!"SSL_read() failed with {errno}") ring
      else ((ringUnpush ring (value.part0.size + value.part1.size - r.bytes.length)).mapError
        (extend .closeLogDie)).andThen fun _ ring => .ok { r with exhausted := true } ring) fun _ r =>
  let ring := ring.write value r.bytes
  ((ringUnpush ring (value.part0.size + value.part1.size - r.bytes.length)).mapError
    (extend .closeLogDie)).andThen fun _ ring => .ok r ring

/-- `cryptography_pump_to_ring`; the value is whether the connection was closed. -/
def cryptographyPumpToRing (ssl : Bool) (last : Realloc) :
    List ReceiveAnswers → Ring → Outcome ExError Ring Bool
  | [], ring =>
    (cryptographyPumpRound ssl ⟨last, .wouldBlock, .wouldBlock⟩ ring).andThen fun _ ring =>
      .ok false ring
  | answers :: rounds, ring =>
    (cryptographyPumpRound ssl answers ring).andThen fun r ring =>
      if r.ended || r.exhausted then .ok (ssl && r.ended) ring
      else cryptographyPumpToRing ssl last rounds ring

/-- The size of the response stream grows by the value of this: the bytes OpenSSL wants to send. -/
def cryptographyPumpOut (answers : PumpAnswers) (client : Client) : Outcome ExError Client ℕ :=
  let oldStreamSize := client.responseStream.size
  ((cryptographyPumpToRing false answers.last answers.rounds client.responseStream).mapState
    fun stream => { client with responseStream := stream }).andThen fun _ client =>
      .ok (client.responseStream.size - oldStreamSize) client

/-! ## Silent responses -/

/-- The metadata of a silent response. -/
def silentResponse (silentSize : ℕ) : Response :=
  { Response.zero with streamSize := silentSize, silent := true }

/-- `cryptography_create_silent_response` -/
def cryptographyCreateSilentResponse (silentSize : ℕ) (realloc : Realloc) (client : Client) :
    Outcome ExError Client Unit :=
  if silentSize = 0 then .ok () client
  else
    let silent := silentResponse silentSize
    (((ringReserve client.responseQueue (client.responseQueue.size + sizeofResponse) realloc).mapError
      (extend .closeLog)).mapState fun queue => { client with responseQueue := queue }).andThen
        fun _ client =>
    (((ringPushWrite client.responseQueue silent.encode).mapError (extend .closeLogDie)).mapState
      fun queue => { client with responseQueue := queue }).andThen fun _ client =>
    let client :=
      if client.responseCount = 0 then { client with response := silent } else client
    .ok () { client with responseCount := client.responseCount + 1 }

/-! ## Life of a connection -/

/-- The answers to what `cryptography_initialize` asks. -/
structure InitializeAnswers where
  /-- Why no `BIO` or no `SSL` was made, if none was -/
  refused : Option Error
  pump : PumpAnswers
  silent : Realloc

/-- `cryptography_initialize` -/
def cryptographyInitialize (answers : InitializeAnswers) (client : Client) :
    Outcome ExError Client Unit :=
  match answers.refused with
  | some e => .error (extend .closeLog e) client
  | none =>
    ((cryptographyPumpToRing false answers.pump.last answers.pump.rounds
      client.responseStream).mapState fun stream => { client with responseStream := stream }).andThen
        fun _ client =>
    (cryptographyCreateSilentResponse client.responseStream.size answers.silent client).andThen
      fun _ client => .ok () { client with ssl := true }

/-- How `SSL_accept` and `SSL_shutdown` answer. -/
inductive HandshakeAnswer where
  /-- The code is positive. -/
  | finished
  /-- The code is zero. -/
  | zero
  /-- `SSL_ERROR_WANT_READ` or `SSL_ERROR_WANT_WRITE` -/
  | wants
  | failed (error : String)
deriving DecidableEq, Repr

/-- The answers to what `cryptography_finalize` asks. -/
structure ShutdownAnswers where
  shutdown : HandshakeAnswer
  pump : PumpAnswers
  silent : Realloc

/-- `cryptography_finalize` -/
def cryptographyFinalize (answers : ShutdownAnswers) (client : Client) :
    Outcome ExError Client Unit :=
  let freed (client : Client) : Client := { client with ssl := false }
  if client.cryptographyState = .shutdown then .ok () (freed client)
  else
    let client := { client with
      cryptographyState := if answers.shutdown = .finished then .shutdown else .pendingShutdown }
    match answers.shutdown with
    | .failed e => .error (extend .closeLog s!"SSL_shutdown() failed with {e}") (freed client)
    | _ =>
      ((cryptographyPumpOut answers.pump client).andThen fun encryptedValueSize client =>
        cryptographyCreateSilentResponse encryptedValueSize answers.silent client).mapState freed

/-! ## Decryption -/

/-- The answers to what `cryptography_decrypt` asks. -/
structure DecryptAnswers where
  /-- Why `BIO_write` failed on one of the parts, if it did -/
  refused : Option Error
  accept : HandshakeAnswer
  read : PumpAnswers
  shutdown : HandshakeAnswer
  pump : PumpAnswers
  silent : Realloc

/-- The part of `cryptography_decrypt` that goes on with the handshake. -/
def decryptHandshake (answer : HandshakeAnswer) (client : Client) : Outcome ExError Client Unit :=
  if client.cryptographyState = .pendingHandshake then
    match answer with
    | .finished => .ok () { client with cryptographyState := .operational }
    | .zero => .ok () { client with cryptographyState := .shutdown }
    | .wants => .ok () client
    | .failed e => .error (extend .closeLog s!"SSL_accept() failed with {e}") client
  else .ok () client

/-- The part of `cryptography_decrypt` that reads decrypted data. -/
def decryptRead (answers : PumpAnswers) (client : Client) : Outcome ExError Client Unit :=
  if client.cryptographyState = .operational then
    ((cryptographyPumpToRing true answers.last answers.rounds client.requestStream).mapState
      fun stream => { client with requestStream := stream }).andThen fun closed client =>
        .ok () (if closed then { client with cryptographyState := .shutdown } else client)
  else .ok () client

/-- The part of `cryptography_decrypt` that goes on with the shutdown. -/
def decryptShutdown (answer : HandshakeAnswer) (client : Client) : Outcome ExError Client Unit :=
  if client.cryptographyState = .pendingShutdown then
    match answer with
    | .finished => .ok () { client with cryptographyState := .shutdown }
    | .zero | .wants => .ok () client
    | .failed e => .error (extend .closeLog s!"SSL_shutdown() failed with {e}") client
  else .ok () client

/-- `cryptography_decrypt` -/
def cryptographyDecrypt (answers : DecryptAnswers) (oldRequestStreamSize : ℕ) (client : Client) :
    Outcome ExError Client Unit :=
  -- grab the latest encrypted data from the request stream and send it to SSL
  let size := sizeSub client.requestStream.size oldRequestStreamSize
  match ringGet client.requestStream ⟨0, size⟩ true with
  | .error e => .error (extend .closeLogDie e) client
  | .ok _ =>
    match answers.refused with
    | some e => .error (extend .closeLog e) client
    | none =>
      (((ringUnpush client.requestStream size).mapError (extend .closeLogDie)).mapState fun stream =>
        { client with requestStream := stream }).andThen fun _ client =>
      (decryptHandshake answers.accept client).andThen fun _ client =>
      (decryptRead answers.read client).andThen fun _ client =>
      (decryptShutdown answers.shutdown client).andThen fun _ client =>
      -- read encrypted data from SSL and place it in the response stream
      (cryptographyPumpOut answers.pump client).andThen fun encryptedValueSize client =>
      cryptographyCreateSilentResponse encryptedValueSize answers.silent client

/-! ## Encryption -/

/-- The answers to what `cryptography_encrypt` asks. -/
structure EncryptAnswers where
  /-- Why `SSL_write` failed on one of the parts, if it did -/
  refused : Option Error
  pump : PumpAnswers

/-- The correction of the size of the latest response in the queue. -/
def correctStreamSize (response : Response) (streamSize : ℕ) (queue : Ring) :
    Outcome Error Ring Unit :=
  match ringGet queue ⟨response.size + (sizeofResponse - 0 - 8), 8⟩ true with
  | .error e => .error e queue
  | .ok value => .ok () (queue.write value (littleEndian 8 streamSize))

/-- `cryptography_encrypt`. What `SSL_write` is given goes nowhere but to OpenSSL. -/
def cryptographyEncrypt (answers : EncryptAnswers) (response : Response) (client : Client) :
    Outcome ExError Client Unit :=
  match answers.refused with
  | some e => .error (extend .closeLog e) client
  | none =>
    (cryptographyPumpOut answers.pump client).andThen fun encryptedValueSize client =>
    (((correctStreamSize response encryptedValueSize client.responseQueue).mapError
      (extend .closeLogDie)).mapState fun queue => { client with responseQueue := queue }).andThen
        fun _ client =>
    .ok () (if client.responseCount = 0 then
      { client with response.streamSize := encryptedValueSize } else client)

/-! ## What stays the same -/

/-- Besides, the client is as encrypted as it was. -/
structure Client.SameEncryption (c d : Client) : Prop extends Client.Same c d where
  ssl : d.ssl = c.ssl

theorem Client.SameEncryption.refl (c : Client) : c.SameEncryption c := ⟨.refl c, rfl⟩

theorem Client.SameEncryption.trans {c d e : Client} (h : c.SameEncryption d)
    (h' : d.SameEncryption e) : c.SameEncryption e :=
  ⟨h.toSame.trans h'.toSame, h'.ssl.trans h.ssl⟩

section

variable {client : Client}

/-- Pumping changes the response stream and nothing else. -/
theorem cryptographyPumpOut_meets (answers : PumpAnswers) :
    (cryptographyPumpOut answers client).Meets True
      (fun _ d => ∃ stream, d = { client with responseStream := stream })
      fun _ d => ∃ stream, d = { client with responseStream := stream } :=
  (Outcome.meets_mapState _ _).andThen (fun _ _ hd => hd) fun _ _ => id

theorem Client.sameEncryption_responseStream (client : Client) (stream : Ring) :
    client.SameEncryption { client with responseStream := stream } :=
  ⟨⟨⟨rfl, rfl, rfl, rfl, rfl⟩, rfl, rfl, rfl, rfl, rfl, id⟩, rfl⟩

theorem cryptographyCreateSilentResponse_same (silentSize : ℕ) (realloc : Realloc) :
    (cryptographyCreateSilentResponse silentSize realloc client).Meets True
      (fun _ d => client.SameEncryption d ∧ d.cryptographyState = client.cryptographyState)
      fun _ d => client.SameEncryption d ∧ d.cryptographyState = client.cryptographyState := by
  have hsame : ∀ queue : Ring, client.SameEncryption { client with responseQueue := queue } :=
    fun _ => ⟨⟨⟨rfl, rfl, rfl, rfl, rfl⟩, rfl, rfl, rfl, rfl, rfl, id⟩, rfl⟩
  unfold cryptographyCreateSilentResponse
  by_cases hzero : silentSize = 0
  · rw [if_pos hzero]
    exact ⟨.refl client, rfl⟩
  rw [if_neg hzero]
  refine (Outcome.meets_mapState _ _).andThen (fun _ d hd => ?_) fun _ d hd => ?_
  · obtain ⟨queue, rfl⟩ := hd
    refine (Outcome.meets_mapState _ _).andThen (fun _ d hd => ?_) fun _ d hd => ?_
    · obtain ⟨queue, rfl⟩ := hd
      dsimp only
      split_ifs <;> exact ⟨⟨⟨⟨rfl, rfl, rfl, rfl, rfl⟩, rfl, rfl, rfl, rfl, rfl, id⟩, rfl⟩, rfl⟩
    · obtain ⟨queue, rfl⟩ := hd
      exact ⟨hsame queue, rfl⟩
  · obtain ⟨queue, rfl⟩ := hd
    exact ⟨hsame queue, rfl⟩

/-- What OpenSSL wants to send is accounted for by a silent response. -/
theorem pumpSilently_same (answers : PumpAnswers) (realloc : Realloc) :
    ((cryptographyPumpOut answers client).andThen fun encryptedValueSize client =>
      cryptographyCreateSilentResponse encryptedValueSize realloc client).Meets True
      (fun _ d => client.SameEncryption d ∧ d.cryptographyState = client.cryptographyState)
      fun _ d => client.SameEncryption d ∧ d.cryptographyState = client.cryptographyState := by
  refine (cryptographyPumpOut_meets answers).andThen (fun size d hd => ?_) fun _ d hd => ?_
  · obtain ⟨stream, rfl⟩ := hd
    refine (cryptographyCreateSilentResponse_same size realloc).mono ?_ ?_
    all_goals
      intro _ e he
      exact ⟨(client.sameEncryption_responseStream stream).trans he.1, he.2⟩
  · obtain ⟨stream, rfl⟩ := hd
    exact ⟨client.sameEncryption_responseStream stream, rfl⟩

/-- Encryption corrects the size of a response, and does not change whether it keeps the
connection. -/
theorem cryptographyEncrypt_same (answers : EncryptAnswers) (response : Response) :
    (cryptographyEncrypt answers response client).Meets True
      (fun _ d => client.SameEncryption d ∧ d.response.keepAlive = client.response.keepAlive)
      fun _ d => client.SameEncryption d := by
  unfold cryptographyEncrypt
  rcases answers.refused with _ | e
  · dsimp only
    refine (cryptographyPumpOut_meets _).andThen (fun size d hd => ?_) fun _ d hd => ?_
    · obtain ⟨stream, rfl⟩ := hd
      refine (Outcome.meets_mapState _ _).andThen (fun _ d hd => ?_) fun _ d hd => ?_
      · obtain ⟨queue, rfl⟩ := hd
        dsimp only
        split_ifs <;> exact ⟨⟨⟨⟨rfl, rfl, rfl, rfl, rfl⟩, rfl, rfl, rfl, rfl, rfl, id⟩, rfl⟩, rfl⟩
      · obtain ⟨queue, rfl⟩ := hd
        exact ⟨⟨⟨rfl, rfl, rfl, rfl, rfl⟩, rfl, rfl, rfl, rfl, rfl, id⟩, rfl⟩
    · obtain ⟨stream, rfl⟩ := hd
      exact client.sameEncryption_responseStream stream
  · exact .refl client

theorem cryptographyInitialize_same (answers : InitializeAnswers) :
    (cryptographyInitialize answers client).Meets True (fun _ d => client.Same d ∧ d.ssl = true)
      fun _ d => client.Same d := by
  unfold cryptographyInitialize
  rcases answers.refused with _ | e
  · dsimp only
    refine (Outcome.meets_mapState _ _).andThen (fun _ d hd => ?_) fun _ d hd => ?_
    · obtain ⟨stream, rfl⟩ := hd
      have hsame := (client.sameEncryption_responseStream stream).toSame
      refine (cryptographyCreateSilentResponse_same _ _).andThen (fun _ e he => ?_) fun _ e he => ?_
      · have he' := hsame.trans he.1.toSame
        exact ⟨he'.trans ⟨⟨rfl, rfl, rfl, rfl, rfl⟩, rfl, rfl, rfl, rfl, rfl, fun _ => .inl rfl⟩, rfl⟩
      · exact hsame.trans he.1.toSame
    · obtain ⟨stream, rfl⟩ := hd
      exact (client.sameEncryption_responseStream stream).toSame
  · exact .refl client

/-- A connection that is shut down is not served any more. -/
theorem cryptographyFinalize_same (answers : ShutdownAnswers) :
    (cryptographyFinalize answers client).Meets True (fun _ d => client.Same d)
      fun _ d => client.Same d := by
  have hfreed : ∀ d : Client, d.cryptographyState ≠ .operational → client.Same d →
      client.Same { d with ssl := false } := fun d hd hsame =>
    hsame.trans ⟨⟨rfl, rfl, rfl, rfl, rfl⟩, rfl, rfl, rfl, rfl, rfl, fun _ => .inr hd⟩
  unfold cryptographyFinalize
  by_cases hshutdown : client.cryptographyState = .shutdown
  · rw [if_pos hshutdown]
    exact hfreed client (by rw [hshutdown]; decide) (.refl client)
  rw [if_neg hshutdown]
  set closing : Client := { client with
    cryptographyState := if answers.shutdown = .finished then .shutdown else .pendingShutdown }
    with hclosing
  have hstate : closing.cryptographyState ≠ .operational := by
    rw [hclosing]
    dsimp only
    split_ifs <;> decide
  have hsame : client.Same closing :=
    ⟨⟨rfl, rfl, rfl, rfl, rfl⟩, rfl, rfl, rfl, rfl, rfl, fun _ => .inr hstate⟩
  have hdone : (((cryptographyPumpOut answers.pump closing).andThen fun encryptedValueSize client =>
      cryptographyCreateSilentResponse encryptedValueSize answers.silent client).mapState
        fun d => { d with ssl := false }).Meets True (fun _ d => client.Same d)
          fun _ d => client.Same d := by
    refine ((pumpSilently_same answers.pump answers.silent).mapState _).mono ?_ ?_
    all_goals
      rintro _ _ ⟨d, rfl, hd, hdstate⟩
      exact hfreed d (by rw [hdstate]; exact hstate) (hsame.trans hd.toSame)
  rcases hanswer : answers.shutdown with _ | _ | _ | e
  · simpa only [hanswer] using hdone
  · simpa only [hanswer] using hdone
  · simpa only [hanswer] using hdone
  · exact hfreed closing hstate hsame

end

end Twinkleshine
