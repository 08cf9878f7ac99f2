import Twinkleshine.Output.Names
import Twinkleshine.RingFifo
import Twinkleshine.Server.Client
import Mathlib.Data.ZMod.Basic

/-!
# The memory that is counted

Reference: `source/memory.c`, `ring_finalize` and `ring_reserve` in `source/ring.c`,
`client_finalize` in `source/client.c`, `source/output.c`.

`g_memory` is meant to be the sum of what was requested for the blocks that are alive. The allocator
is not asked for the size of a block: whoever frees it states the size again. A ring states its
capacity. The block of a path is stated to be as long as the path, also where more was requested.
-/

namespace Twinkleshine

open Library

/-! ## Counting -/

/-- `count_malloc` on `g_memory`, `none` when there is no memory. -/
def countMalloc (malloc : Bool) (newSize memory : ℕ) : Option ℕ :=
  if malloc then some (sizeAdd memory newSize) else none

/-- `count_free` on `g_memory`. -/
def countFree (memory oldSize : ℕ) : ℕ := sizeSub memory oldSize

/-- A log, with the size that was requested for the block of its path. -/
structure HeldLog where
  log : Log
  requested : ℕ
deriving DecidableEq, Repr

/-- The size that is stated when the path is freed. -/
def HeldLog.stated (held : HeldLog) : ℕ := sizeAdd held.log.path.length 1

/-- `g_memory` and what is alive: the rings of the clients and the paths of `g_logs`. -/
structure Holdings where
  memory : ℕ
  clients : List Client
  logs : List HeldLog
  totalSize : ℕ
  /-- The logs that were deleted, and their paths freed -/
  unlinked : List HeldLog
deriving DecidableEq, Repr

namespace Holdings

/-- When the program starts. -/
def empty : Holdings := ⟨0, [], [], 0, []⟩

/-! ## Logs -/

/-- `delete`, with what it frees. -/
def delete (number : ℕ) (s : Holdings) : Holdings where
  memory := (s.logs.take number).foldl (fun memory held => countFree memory held.stated) s.memory
  clients := s.clients
  logs := s.logs.drop number
  totalSize := (s.logs.take number).foldl (fun total held => sizeSub total held.log.size) s.totalSize
  unlinked := s.unlinked ++ s.logs.take number

/-- `cleanup` -/
def cleanup (globalNow : ℤ) (s : Holdings) : Holdings :=
  s.delete (cleanupCount globalNow (s.logs.map HeldLog.log) s.totalSize)

/-- `insert` -/
def insert (globalNow : ℤ) (held : HeldLog) (s : Holdings) : Holdings :=
  let i := insertPlace held.log (s.logs.map HeldLog.log) s.logs.length
  if s.logs.length = maxTotalLogNumber ∧ i = 0 then
    { s with memory := countFree s.memory held.stated, unlinked := s.unlinked ++ [held] }
  else
    let (s, i) :=
      if s.logs.length = maxTotalLogNumber ∧ i > 0 then (s.delete 1, i - 1) else (s, i)
    cleanup globalNow { s with
      logs := s.logs.take i ++ held :: s.logs.drop i
      totalSize := sizeAdd s.totalSize held.log.size }

/-- The loop of `output_module_initialize`, for one entry of the directory. -/
def readEntry (calendar : Calendar) (globalNow : ℤ) (entry : DirectoryEntry) (s : Holdings) :
    Holdings :=
  if ¬ entry.regular then s
  else
    match parseLogName calendar globalNow (calendar.start globalNow) entry.name with
    | none => s
    | some (globalStart, number) =>
      let requested := logDirectory.length + entry.name.length + 1
      match countMalloc entry.malloc requested s.memory with
      | none => s
      | some memory =>
        let path := logDirectory ++ entry.name
        match entry.status with
        | none => { s with memory := countFree memory (sizeAdd path.length 1) }
        | some size =>
          insert globalNow ⟨⟨globalStart, number, size, path⟩, requested⟩ { s with memory := memory }

/-- `name_length + 1` in `output_open` -/
def newLogRequest : ℕ := logDirectory.length + (ascii "YYYY-MM-DD.log.NNNN").length + 1

/-- `output_open`, up to where the file is opened. -/
def openLog (calendar : Calendar) (globalNow : ℤ) (malloc : Bool) (s : Holdings) : Holdings :=
  let globalStart := calendar.start globalNow
  match newLogNumber globalStart (s.logs.map HeldLog.log) with
  | none => s
  | some number =>
    match countMalloc malloc newLogRequest s.memory with
    | none => s
    | some memory =>
      insert globalNow
        ⟨⟨globalStart, number, 0, logPath calendar globalStart number⟩, newLogRequest⟩
        { s with memory := memory }

/-- `output_vprint`: what is printed counts for the last log. -/
def print (result : ℕ) (s : Holdings) : Option Holdings :=
  s.logs.getLast?.map fun last => { s with
    logs := s.logs.dropLast ++
      [{ last with log := { last.log with size := sizeAdd last.log.size result } }]
    totalSize := sizeAdd s.totalSize result }

end Holdings

/-! ## Rings -/

/-- The rings of a client. -/
inductive ClientRing where
  | requestStream
  | responseQueue
  | responseStream
deriving DecidableEq, Repr

def Client.ring (client : Client) : ClientRing → Ring
  | .requestStream => client.requestStream
  | .responseQueue => client.responseQueue
  | .responseStream => client.responseStream

def Client.setRing (client : Client) (ring : Ring) : ClientRing → Client
  | .requestStream => { client with requestStream := ring }
  | .responseQueue => { client with responseQueue := ring }
  | .responseStream => { client with responseStream := ring }

/-- What a ring operation does to `g_memory`: `ring_reserve` calls `count_realloc` with the old capacity
and the new one, which it keeps when there is no memory. -/
def ringMemory (before after : Ring) (memory : ℕ) : RingCall → ℕ
  | .reserve _ _ => sizeAdd memory (sizeSub after.capacity before.capacity)
  | _ => memory

/-- What `ring_finalize` does to `g_memory`. -/
def ringFinalizeMemory (memory : ℕ) (ring : Ring) : ℕ :=
  if ring.p ≠ [] then countFree memory ring.capacity else memory

namespace Holdings

/-- A ring operation; `none` when it never returns. -/
def callRing (i : ℕ) (which : ClientRing) (call : RingCall) (s : Holdings) : Option Holdings :=
  s.clients[i]?.bind fun client =>
  let put (after : Ring) : Holdings := { s with
    memory := ringMemory (client.ring which) after s.memory call
    clients := s.clients.set i (client.setRing after which) }
  match ringCall (client.ring which) call with
  | .ok _ after => some (put after)
  | .error _ after => some (put after)
  | .hang => none

/-- `ring_finalize` -/
def finalizeRing (i : ℕ) (which : ClientRing) (s : Holdings) : Option Holdings :=
  s.clients[i]?.map fun client => { s with
    memory := ringFinalizeMemory s.memory (client.ring which)
    clients := s.clients.set i (client.setRing (ringFinalize (client.ring which)) which) }

/-- `client_finalize` -/
def finalizeClient (i : ℕ) (s : Holdings) : Option Holdings :=
  s.clients[i]?.map fun client => { s with
    memory := [client.requestStream, client.responseQueue, client.responseStream].foldl
      ringFinalizeMemory s.memory
    clients := s.clients.set i client.finalized }

end Holdings

/-! ## Steps -/

/-- What changes the holdings. -/
inductive HoldingsEvent where
  | accept
  | ring (i : ℕ) (which : ClientRing) (call : RingCall)
  | finalizeRing (i : ℕ) (which : ClientRing)
  | finalizeClient (i : ℕ)
  | readEntry (calendar : Calendar) (globalNow : ℤ) (entry : DirectoryEntry)
  | openLog (calendar : Calendar) (globalNow : ℤ) (malloc : Bool)
  | cleanup (globalNow : ℤ)
  | print (result : ℕ)

/-- One event, `none` when it never ends or finds nothing to work on. -/
def Holdings.run (s : Holdings) : HoldingsEvent → Option Holdings
  | .accept => some { s with clients := s.clients ++ [.zero] }
  | .ring i which call => s.callRing i which call
  | .finalizeRing i which => s.finalizeRing i which
  | .finalizeClient i => s.finalizeClient i
  | .readEntry calendar globalNow entry => some (s.readEntry calendar globalNow entry)
  | .openLog calendar globalNow malloc => some (s.openLog calendar globalNow malloc)
  | .cleanup globalNow => some (s.cleanup globalNow)
  | .print result => s.print result

/-- The bytes requested for the rings of a client. -/
def Client.requested (client : Client) : ℕ :=
  client.requestStream.p.length + client.responseQueue.p.length + client.responseStream.p.length

/-- The bytes requested for all blocks that are alive. -/
def Holdings.total (s : Holdings) : ℕ :=
  (s.clients.map Client.requested).sum + (s.logs.map HeldLog.requested).sum

/-! ## The model of the logs -/

/-- The logs as `Logs` has them, without their blocks. -/
def Holdings.toLogs (s : Holdings) : Logs :=
  ⟨s.logs.map HeldLog.log, s.totalSize, s.unlinked.map HeldLog.log⟩

theorem Holdings.toLogs_delete (number : ℕ) (s : Holdings) :
    (s.delete number).toLogs = s.toLogs.delete number := by
  simp only [toLogs, delete, Logs.delete, List.map_drop, List.map_take, List.map_append,
    ← List.foldl_map (f := HeldLog.log)
      (g := fun total log => sizeSub total log.size)]

theorem Holdings.toLogs_cleanup (globalNow : ℤ) (s : Holdings) :
    (s.cleanup globalNow).toLogs = s.toLogs.cleanup globalNow := s.toLogs_delete _

theorem Holdings.toLogs_insert (globalNow : ℤ) (held : HeldLog) (s : Holdings) :
    (s.insert globalNow held).toLogs = s.toLogs.insert globalNow held.log := by
  have hlogs : s.toLogs.logs = s.logs.map HeldLog.log := rfl
  unfold insert Logs.insert
  rw [hlogs, List.length_map]
  dsimp only
  by_cases hrefused : s.logs.length = maxTotalLogNumber ∧
      insertPlace held.log (s.logs.map HeldLog.log) s.logs.length = 0
  · rw [if_pos hrefused, if_pos hrefused]
    simp only [toLogs, List.map_append, List.map_singleton]
  · rw [if_neg hrefused, if_neg hrefused]
    by_cases hfull : s.logs.length = maxTotalLogNumber ∧
        insertPlace held.log (s.logs.map HeldLog.log) s.logs.length > 0
    · rw [if_pos hfull, if_pos hfull, toLogs_cleanup, ← toLogs_delete]
      simp only [toLogs, List.map_append, List.map_cons, List.map_take, List.map_drop]
    · rw [if_neg hfull, if_neg hfull, toLogs_cleanup]
      simp only [toLogs, List.map_append, List.map_cons, List.map_take, List.map_drop]

/-- `output_open` leaves the logs that are left here. -/
theorem outputOpen_logs {calendar : Calendar} {globalNow : ℤ} {malloc opened : Bool} {s : Holdings}
    {output output' : Output} (hcatastrophic : output.catastrophic = false)
    (hlogs : output.logs = s.toLogs)
    (h : outputOpen calendar globalNow malloc opened output = some output') :
    output'.logs = (s.openLog calendar globalNow malloc).toLogs := by
  have hmap : s.toLogs.logs = s.logs.map HeldLog.log := rfl
  rw [outputOpen, hcatastrophic, if_neg Bool.false_ne_true, hlogs, hmap] at h
  rw [Holdings.openLog]
  dsimp only at h ⊢
  generalize newLogNumber (calendar.start globalNow) (s.logs.map HeldLog.log) = number at h ⊢
  cases number with
  | none =>
    rw [openLast_logs h, hlogs]
  | some number =>
    dsimp only at h ⊢
    cases malloc with
    | false =>
      have hrefused : countMalloc false Holdings.newLogRequest s.memory = none := rfl
      cases h
      rw [hrefused]
    | true =>
      have hgranted : countMalloc true Holdings.newLogRequest s.memory
          = some (sizeAdd s.memory Holdings.newLogRequest) := rfl
      rw [if_neg (by simp)] at h
      rw [openLast_logs h, hgranted]
      dsimp only
      rw [Holdings.toLogs_insert]
      rfl

/-! ## The balance -/

theorem cast_sizeAdd (a b : ℕ) : ((sizeAdd a b : ℕ) : ZMod sizeModulus) = a + b := by
  rw [sizeAdd, ZMod.natCast_mod, Nat.cast_add]

theorem cast_sizeSub (a b : ℕ) : ((sizeSub a b : ℕ) : ZMod sizeModulus) = a - b := by
  have hle : b % sizeModulus ≤ sizeModulus := Nat.le_of_lt (Nat.mod_lt _ (Nat.two_pow_pos 64))
  rw [sizeSub, ZMod.natCast_mod, Nat.cast_add, Nat.cast_sub hle, ZMod.natCast_self, ZMod.natCast_mod,
    zero_sub, sub_eq_add_neg]

/-- What was requested for the paths of deleted logs, beyond what was stated when they were freed. -/
def excess (gone : List HeldLog) : ZMod sizeModulus :=
  (gone.map fun held => (held.requested : ZMod sizeModulus) - held.stated).sum

theorem excess_append (gone gone' : List HeldLog) :
    excess (gone ++ gone') = excess gone + excess gone' := by
  rw [excess, List.map_append, List.sum_append, excess, excess]

namespace Holdings

/-- What `g_memory` is off by, less what the deleted logs account for. -/
def balance (s : Holdings) : ZMod sizeModulus := s.memory - s.total - excess s.unlinked

/-- Freeing paths. -/
theorem cast_foldl_countFree (gone : List HeldLog) (memory : ℕ) :
    ((gone.foldl (fun memory held => countFree memory held.stated) memory : ℕ) : ZMod sizeModulus)
      = memory + excess gone - ((gone.map HeldLog.requested).sum : ℕ) := by
  induction gone generalizing memory with
  | nil => simp [excess]
  | cons held gone ih =>
    rw [List.foldl_cons, ih, countFree, cast_sizeSub, List.map_cons, List.sum_cons, Nat.cast_add]
    simp only [excess, List.map_cons, List.sum_cons]
    ring

theorem balance_delete (number : ℕ) (s : Holdings) : (s.delete number).balance = s.balance := by
  have hsum : (s.logs.map HeldLog.requested).sum = ((s.logs.take number).map HeldLog.requested).sum
      + ((s.logs.drop number).map HeldLog.requested).sum := by
    rw [← List.sum_append, ← List.map_append, List.take_append_drop]
  simp only [balance, total, delete]
  rw [cast_foldl_countFree, excess_append, hsum]
  push_cast
  ring

/-- Inserting a log whose path has been allocated. -/
theorem balance_insert (globalNow : ℤ) (held : HeldLog) (s : Holdings) :
    (s.insert globalNow held).balance = s.balance - held.requested := by
  have hput : ∀ (u : Holdings) (i : ℕ), Holdings.balance { u with
      logs := u.logs.take i ++ held :: u.logs.drop i
      totalSize := sizeAdd u.totalSize held.log.size } = u.balance - held.requested := by
    intro u i
    have hsum : (u.logs.map HeldLog.requested).sum = ((u.logs.take i).map HeldLog.requested).sum
        + ((u.logs.drop i).map HeldLog.requested).sum := by
      rw [← List.sum_append, ← List.map_append, List.take_append_drop]
    simp only [balance, total]
    rw [hsum, List.map_append, List.map_cons, List.sum_append, List.sum_cons]
    push_cast
    ring
  unfold insert
  dsimp only
  by_cases hrefused : s.logs.length = maxTotalLogNumber ∧
      insertPlace held.log (s.logs.map HeldLog.log) s.logs.length = 0
  · rw [if_pos hrefused]
    simp only [balance, total, countFree, cast_sizeSub, excess_append]
    simp only [excess, List.map_cons, List.map_nil, List.sum_cons, List.sum_nil]
    ring
  · rw [if_neg hrefused, cleanup, balance_delete]
    by_cases hfull : s.logs.length = maxTotalLogNumber ∧
        insertPlace held.log (s.logs.map HeldLog.log) s.logs.length > 0
    · rw [if_pos hfull, hput, balance_delete]
    · rw [if_neg hfull, hput]

/-- What `count_malloc` adds is held until the log is inserted. -/
theorem balance_insert_malloc (globalNow : ℤ) (held : HeldLog) {s : Holdings} {malloc : Bool}
    {memory : ℕ} (h : countMalloc malloc held.requested s.memory = some memory) :
    Holdings.balance (insert globalNow held { s with memory := memory }) = s.balance := by
  obtain ⟨-, rfl⟩ : malloc = true ∧ sizeAdd s.memory held.requested = memory := by
    unfold countMalloc at h
    split_ifs at h with hgranted
    exact ⟨hgranted, Option.some.inj h⟩
  rw [balance_insert]
  simp only [balance, total, cast_sizeAdd]
  ring

theorem balance_readEntry (calendar : Calendar) (globalNow : ℤ) (entry : DirectoryEntry)
    (s : Holdings) : (s.readEntry calendar globalNow entry).balance = s.balance := by
  unfold readEntry
  by_cases hregular : ¬ entry.regular
  · rw [if_pos hregular]
  rw [if_neg hregular]
  rcases parseLogName calendar globalNow (calendar.start globalNow) entry.name with _ | ⟨start, number⟩
  · rfl
  dsimp only
  rcases hmalloc : countMalloc entry.malloc (logDirectory.length + entry.name.length + 1) s.memory
    with _ | memory
  · rfl
  rcases entry.status with _ | size
  · -- the path that is freed is the one that was requested
    obtain rfl : sizeAdd s.memory (logDirectory.length + entry.name.length + 1) = memory := by
      unfold countMalloc at hmalloc
      split_ifs at hmalloc
      exact Option.some.inj hmalloc
    simp only [balance, total, countFree, cast_sizeSub, cast_sizeAdd, List.length_append]
    push_cast
    ring
  · exact balance_insert_malloc globalNow _ hmalloc

theorem balance_openLog (calendar : Calendar) (globalNow : ℤ) (malloc : Bool) (s : Holdings) :
    (s.openLog calendar globalNow malloc).balance = s.balance := by
  unfold openLog
  dsimp only
  rcases newLogNumber (calendar.start globalNow) (s.logs.map HeldLog.log) with _ | number
  · rfl
  dsimp only
  rcases hmalloc : countMalloc malloc newLogRequest s.memory with _ | memory
  · rfl
  · exact balance_insert_malloc globalNow _ hmalloc

theorem balance_print {result : ℕ} {s t : Holdings} (h : s.print result = some t) :
    t.balance = s.balance := by
  obtain ⟨last, hlast, rfl⟩ := Option.map_eq_some_iff.mp h
  have hsum : ((s.logs.dropLast ++ [last]).map HeldLog.requested).sum
      = (s.logs.map HeldLog.requested).sum := by
    rw [List.dropLast_append_getLast? last hlast]
  rw [List.map_append, List.sum_append] at hsum
  simp only [balance, total, List.map_append, List.sum_append, ← hsum]
  rfl

end Holdings

/-! ## Rings and the balance -/

/-- The bytes that are pushed lie in memory beside those of the ring. -/
def RingCall.Fits (ring : Ring) : RingCall → Prop
  | pushWrite bytes | pushGet bytes => ring.size + bytes.length < 2 ^ 64
  | reserve _ _ | pop _ | popRead _ | unpush _ => True

/-- A ring operation counts what it does to the block. -/
theorem ringCall_counts {ring : Ring} (h : ring.Valid) {call : RingCall} (hfits : call.Fits ring) :
    (ringCall ring call).Keeps fun after => after.Valid ∧ ∀ memory : ℕ,
      ((ringMemory ring after memory call : ℕ) : ZMod sizeModulus)
        = memory + after.p.length - ring.p.length := by
  -- a call that keeps the capacity leaves the count as it is
  have hsame : ∀ (after : Ring) (memory : ℕ), after.Valid → after.capacity = ring.capacity →
      (memory : ZMod sizeModulus) = memory + after.p.length - ring.p.length := by
    intro after memory hafter hcapacity
    rw [hafter.length_p, h.length_p, hcapacity]
    ring
  cases call with
  | reserve capacity realloc =>
    -- only this one changes it, by the difference of the capacities
    have hcount : ∀ after : Ring, after.Valid → ∀ memory : ℕ,
        ((sizeAdd memory (sizeSub after.capacity ring.capacity) : ℕ) : ZMod sizeModulus)
          = memory + after.p.length - ring.p.length := by
      intro after hafter memory
      rw [cast_sizeAdd, cast_sizeSub, hafter.length_p, h.length_p]
      ring
    refine Outcome.Meets.andThen ((ringReserve_meets h capacity realloc).of_imp fun _ => trivial) ?_ ?_
    · rintro _ after ⟨hafter, -⟩
      exact ⟨hafter, hcount after hafter⟩
    · rintro _ _ ⟨rfl, -⟩
      exact ⟨h, hcount _ h⟩
  | pushWrite bytes =>
    refine Outcome.Meets.andThen ((ringPushWrite_spec h hfits).meets True) ?_ ?_
    · rintro _ after ⟨hafter, -, hcapacity, -⟩
      exact ⟨hafter, fun memory => hsame after memory hafter hcapacity⟩
    · rintro _ _ ⟨rfl, -⟩
      exact ⟨h, fun memory => hsame _ memory h rfl⟩
  | pushGet bytes =>
    refine Outcome.Meets.andThen ((ringPushGet_spec h hfits).meets True) ?_ ?_
    · rintro value _ ⟨rfl, -, -, hwrite⟩
      obtain ⟨hafter, -⟩ := hwrite bytes rfl
      exact ⟨hafter, fun memory => hsame _ memory hafter rfl⟩
    · rintro _ _ ⟨rfl, -⟩
      exact ⟨h, fun memory => hsame _ memory h rfl⟩
  | pop size =>
    refine Outcome.Meets.andThen ((ringPop_spec h size).meets True) ?_ ?_
    · rintro _ after ⟨hafter, -, -, hcapacity, -⟩
      exact ⟨hafter, fun memory => hsame after memory hafter hcapacity⟩
    · rintro _ _ ⟨rfl, -⟩
      exact ⟨h, fun memory => hsame _ memory h rfl⟩
  | popRead size =>
    rw [ringCall, ringPopRead]
    rcases ringGet ring ⟨0, size⟩ false with e | value
    · exact ⟨h, fun memory => hsame _ memory h rfl⟩
    · rw [Outcome.ofExcept_ok, Outcome.andThen_ok]
      refine Outcome.Meets.andThen ((ringPop_spec h size).meets True) ?_ ?_
      · rintro _ after ⟨hafter, -, -, hcapacity, -⟩
        exact ⟨hafter, fun memory => hsame after memory hafter hcapacity⟩
      · rintro _ _ ⟨rfl, -⟩
        exact ⟨h, fun memory => hsame _ memory h rfl⟩
  | unpush size =>
    refine Outcome.Meets.andThen ((ringUnpush_spec h size).meets True) ?_ ?_
    · rintro _ after ⟨hafter, -, -, hcapacity, -⟩
      exact ⟨hafter, fun memory => hsame after memory hafter hcapacity⟩
    · rintro _ _ ⟨rfl, -⟩
      exact ⟨h, fun memory => hsame _ memory h rfl⟩

theorem ringFinalizeMemory_counts {ring : Ring} (h : ring.Valid) (memory : ℕ) :
    ((ringFinalizeMemory memory ring : ℕ) : ZMod sizeModulus) = memory - ring.p.length := by
  unfold ringFinalizeMemory
  by_cases hp : ring.p ≠ []
  · rw [if_pos hp, countFree, cast_sizeSub, h.length_p]
  · rw [if_neg hp, not_not.mp hp, List.length_nil, Nat.cast_zero, sub_zero]

/-- Replacing one client. -/
theorem sum_requested_set {clients : List Client} {i : ℕ} {client : Client}
    (h : clients[i]? = some client) (client' : Client) :
    ((clients.set i client').map Client.requested).sum + client.requested
      = (clients.map Client.requested).sum + client'.requested := by
  obtain ⟨hi, rfl⟩ := List.getElem?_eq_some_iff.mp h
  have hold := List.sum_set (clients.map Client.requested) i clients[i].requested
  have hnew := List.sum_set (clients.map Client.requested) i client'.requested
  rw [← List.map_set, List.set_getElem_self] at hold
  rw [← List.map_set] at hnew
  rw [List.length_map, if_pos hi] at hold hnew
  omega

@[simp] theorem Client.ring_setRing (client : Client) (ring : Ring) (which other : ClientRing) :
    (client.setRing ring which).ring other = if other = which then ring else client.ring other := by
  cases which <;> cases other <;> rfl

/-- All rings of a client are valid. -/
def Client.RingsValid (client : Client) : Prop := ∀ which, (client.ring which).Valid

theorem Client.RingsValid.setRing {client : Client} (h : client.RingsValid) {ring : Ring}
    (hring : ring.Valid) (which : ClientRing) : (client.setRing ring which).RingsValid := by
  intro other
  rw [Client.ring_setRing]
  split_ifs
  · exact hring
  · exact h other

theorem Client.requested_setRing (client : Client) (ring : Ring) (which : ClientRing) :
    (client.setRing ring which).requested + (client.ring which).p.length
      = client.requested + ring.p.length := by
  cases which <;> simp only [Client.setRing, Client.ring, Client.requested] <;> omega

/-! ## Runs -/

namespace Holdings

variable {s t : Holdings}

/-- The invariant: rings are valid, and the deleted logs account for what `g_memory` is off by. -/
structure Counted (s : Holdings) : Prop where
  rings : ∀ client ∈ s.clients, client.RingsValid
  memory_lt : s.memory < 2 ^ 64
  balance_eq : s.balance = 0

theorem sizeAdd_lt (a b : ℕ) : sizeAdd a b < 2 ^ 64 := Nat.mod_lt _ (Nat.two_pow_pos 64)

theorem sizeSub_lt (a b : ℕ) : sizeSub a b < 2 ^ 64 := Nat.mod_lt _ (Nat.two_pow_pos 64)

theorem empty_counted : empty.Counted := by
  refine ⟨?_, Nat.two_pow_pos 64, ?_⟩
  · intro client hclient
    cases hclient
  · simp [balance, total, empty, excess]

theorem delete_memory_lt (h : s.memory < 2 ^ 64) (number : ℕ) : (s.delete number).memory < 2 ^ 64 := by
  simp only [delete]
  generalize s.logs.take number = gone
  generalize s.memory = memory at h
  induction gone generalizing memory with
  | nil => exact h
  | cons held gone ih => exact ih _ (sizeSub_lt _ _)

/-- What a call of `insert` leaves alone. -/
theorem insert_frame (globalNow : ℤ) (held : HeldLog) (s : Holdings) :
    (s.insert globalNow held).clients = s.clients ∧
      s.unlinked <+: (s.insert globalNow held).unlinked ∧
      (s.memory < 2 ^ 64 → (s.insert globalNow held).memory < 2 ^ 64) := by
  unfold insert
  dsimp only
  by_cases hrefused : s.logs.length = maxTotalLogNumber ∧
      insertPlace held.log (s.logs.map HeldLog.log) s.logs.length = 0
  · rw [if_pos hrefused]
    exact ⟨rfl, List.prefix_append _ _, fun _ => sizeSub_lt _ _⟩
  · rw [if_neg hrefused]
    by_cases hfull : s.logs.length = maxTotalLogNumber ∧
        insertPlace held.log (s.logs.map HeldLog.log) s.logs.length > 0
    · rw [if_pos hfull]
      refine ⟨rfl, (List.prefix_append _ _).trans (List.prefix_append _ _), ?_⟩
      intro hmemory
      refine delete_memory_lt ?_ _
      exact delete_memory_lt hmemory 1
    · rw [if_neg hfull]
      refine ⟨rfl, List.prefix_append _ _, fun hmemory => delete_memory_lt ?_ _⟩
      exact hmemory

/-- What a call that may insert a log leaves alone. -/
structure Frame (s t : Holdings) : Prop where
  clients : t.clients = s.clients
  unlinked : s.unlinked <+: t.unlinked
  memory : s.memory < 2 ^ 64 → t.memory < 2 ^ 64

theorem Frame.refl (s : Holdings) : Frame s s := ⟨rfl, List.prefix_rfl, id⟩

theorem insert_malloc_frame (globalNow : ℤ) (held : HeldLog) {malloc : Bool} {memory newSize : ℕ}
    (h : countMalloc malloc newSize s.memory = some memory) :
    Frame s (insert globalNow held { s with memory := memory }) := by
  obtain ⟨hclients, hunlinked, hmemory⟩ := insert_frame globalNow held { s with memory := memory }
  refine ⟨hclients, hunlinked, fun _ => hmemory ?_⟩
  unfold countMalloc at h
  split_ifs at h
  rw [← Option.some.inj h]
  exact sizeAdd_lt _ _

theorem readEntry_frame (calendar : Calendar) (globalNow : ℤ) (entry : DirectoryEntry)
    (s : Holdings) : Frame s (s.readEntry calendar globalNow entry) := by
  unfold readEntry
  by_cases hregular : ¬ entry.regular
  · rw [if_pos hregular]
    exact .refl s
  rw [if_neg hregular]
  rcases parseLogName calendar globalNow (calendar.start globalNow) entry.name with _ | ⟨start, number⟩
  · exact .refl s
  dsimp only
  rcases hmalloc : countMalloc entry.malloc (logDirectory.length + entry.name.length + 1) s.memory
    with _ | memory
  · exact .refl s
  rcases entry.status with _ | size
  · exact ⟨rfl, List.prefix_rfl, fun _ => sizeSub_lt _ _⟩
  · exact insert_malloc_frame globalNow _ hmalloc

theorem openLog_frame (calendar : Calendar) (globalNow : ℤ) (malloc : Bool) (s : Holdings) :
    Frame s (s.openLog calendar globalNow malloc) := by
  unfold openLog
  dsimp only
  rcases newLogNumber (calendar.start globalNow) (s.logs.map HeldLog.log) with _ | number
  · exact .refl s
  dsimp only
  rcases hmalloc : countMalloc malloc newLogRequest s.memory with _ | memory
  · exact .refl s
  · exact insert_malloc_frame globalNow _ hmalloc

theorem Counted.of_frame (h : s.Counted) (hframe : Frame s t) (hbalance : t.balance = s.balance) :
    t.Counted := by
  refine ⟨?_, hframe.memory h.memory_lt, hbalance.trans h.balance_eq⟩
  rw [hframe.clients]
  exact h.rings

/-- Replacing one client, with what that does to `g_memory`. -/
theorem Counted.setClient (h : s.Counted) {i : ℕ} {client client' : Client} {memory : ℕ}
    (hi : s.clients[i]? = some client) (hclient' : client'.RingsValid) (hmemory : memory < 2 ^ 64)
    (hcount : (memory : ZMod sizeModulus) = s.memory + client'.requested - client.requested) :
    Counted { s with memory := memory, clients := s.clients.set i client' } := by
  refine ⟨?_, hmemory, ?_⟩
  · intro other hother
    rcases List.mem_or_eq_of_mem_set hother with hold | rfl
    · exact h.rings other hold
    · exact hclient'
  · have hsum := congrArg (Nat.cast (R := ZMod sizeModulus)) (sum_requested_set hi client')
    have hbalance := h.balance_eq
    simp only [balance, total] at hbalance ⊢
    push_cast at hsum hbalance ⊢
    rw [hcount]
    linear_combination hbalance - hsum

theorem counted_callRing (h : s.Counted) {i : ℕ} {which : ClientRing} {call : RingCall}
    (hfits : ∀ client, s.clients[i]? = some client → call.Fits (client.ring which))
    (hrun : s.callRing i which call = some t) : t.Counted ∧ t.unlinked = s.unlinked := by
  obtain ⟨client, hi, hcall⟩ := Option.bind_eq_some_iff.mp hrun
  have hrings := h.rings client (List.mem_of_getElem? hi)
  have hcounts := ringCall_counts (hrings which) (hfits client hi)
  -- however the call ends, the ring and `g_memory` are put back
  have hput : ∀ after : Ring, (after.Valid ∧ ∀ memory : ℕ,
      ((ringMemory (client.ring which) after memory call : ℕ) : ZMod sizeModulus)
        = memory + after.p.length - (client.ring which).p.length) →
      Counted { s with
        memory := ringMemory (client.ring which) after s.memory call
        clients := s.clients.set i (client.setRing after which) } := by
    rintro after ⟨hvalid, hmemory⟩
    refine h.setClient hi (hrings.setRing hvalid which) ?_ ?_
    · cases call <;> first | exact sizeAdd_lt _ _ | exact h.memory_lt
    · have hsum := congrArg (Nat.cast (R := ZMod sizeModulus)) (client.requested_setRing after which)
      push_cast at hsum
      rw [hmemory]
      linear_combination -hsum
  dsimp only at hcall
  generalize ringCall (client.ring which) call = outcome at hcall hcounts
  cases outcome with
  | ok bytes after =>
    cases hcall
    exact ⟨hput after hcounts, rfl⟩
  | error reason after =>
    cases hcall
    exact ⟨hput after hcounts, rfl⟩
  | hang => cases hcall

theorem counted_finalizeRing (h : s.Counted) {i : ℕ} {which : ClientRing}
    (hrun : s.finalizeRing i which = some t) : t.Counted ∧ t.unlinked = s.unlinked := by
  obtain ⟨client, hi, rfl⟩ := Option.map_eq_some_iff.mp hrun
  have hrings := h.rings client (List.mem_of_getElem? hi)
  refine ⟨h.setClient hi (hrings.setRing Ring.zero_valid which) ?_ ?_, rfl⟩
  · unfold ringFinalizeMemory
    split_ifs
    · exact sizeSub_lt _ _
    · exact h.memory_lt
  · have hsum := congrArg (Nat.cast (R := ZMod sizeModulus)) (client.requested_setRing .zero which)
    have hzero : Ring.zero.p.length = 0 := rfl
    rw [hzero] at hsum
    push_cast at hsum
    rw [ringFinalizeMemory_counts (hrings which)]
    rw [ringFinalize]
    linear_combination -hsum

theorem counted_finalizeClient (h : s.Counted) {i : ℕ} (hrun : s.finalizeClient i = some t) :
    t.Counted ∧ t.unlinked = s.unlinked := by
  obtain ⟨client, hi, rfl⟩ := Option.map_eq_some_iff.mp hrun
  have hrings := h.rings client (List.mem_of_getElem? hi)
  have hlt : ∀ (memory : ℕ) (ring : Ring), memory < 2 ^ 64 → ringFinalizeMemory memory ring < 2 ^ 64 := by
    intro memory ring hmemory
    unfold ringFinalizeMemory
    split_ifs
    · exact sizeSub_lt _ _
    · exact hmemory
  refine ⟨h.setClient hi ?_ ?_ ?_, rfl⟩
  · intro which
    cases which <;> exact Ring.zero_valid
  · exact hlt _ _ (hlt _ _ (hlt _ _ h.memory_lt))
  · have hnone : client.finalized.requested = 0 := rfl
    have hrequest : client.requestStream.Valid := hrings .requestStream
    have hqueue : client.responseQueue.Valid := hrings .responseQueue
    have hresponse : client.responseStream.Valid := hrings .responseStream
    simp only [List.foldl_cons, List.foldl_nil]
    rw [ringFinalizeMemory_counts hresponse, ringFinalizeMemory_counts hqueue,
      ringFinalizeMemory_counts hrequest, hnone, Client.requested]
    push_cast
    ring

end Holdings

/-- Where the arguments of an event are in range. -/
def HoldingsEvent.Fits (s : Holdings) : HoldingsEvent → Prop
  | ring i which call => ∀ client, s.clients[i]? = some client → call.Fits (client.ring which)
  | _ => True

/-- One event keeps the invariant, and unlinks some logs. -/
theorem Holdings.Counted.run {s t : Holdings} (h : s.Counted) {event : HoldingsEvent}
    (hfits : event.Fits s) (hrun : s.run event = some t) :
    t.Counted ∧ s.unlinked <+: t.unlinked := by
  cases event with
  | accept =>
    cases hrun
    refine ⟨⟨?_, h.memory_lt, ?_⟩, List.prefix_rfl⟩
    · intro client hclient
      rcases List.mem_append.mp hclient with hold | hnew
      · exact h.rings client hold
      · rw [List.mem_singleton.mp hnew]
        intro which
        cases which <;> exact Ring.zero_valid
    · have hzero : Client.zero.requested = 0 := rfl
      refine Eq.trans ?_ h.balance_eq
      simp only [balance, total, List.map_append, List.map_cons, List.map_nil, List.sum_append,
        List.sum_cons, List.sum_nil, hzero, Nat.add_zero]
  | ring i which call =>
    obtain ⟨ht, hunlinked⟩ := counted_callRing h hfits hrun
    exact ⟨ht, hunlinked ▸ List.prefix_rfl⟩
  | finalizeRing i which =>
    obtain ⟨ht, hunlinked⟩ := counted_finalizeRing h hrun
    exact ⟨ht, hunlinked ▸ List.prefix_rfl⟩
  | finalizeClient i =>
    obtain ⟨ht, hunlinked⟩ := counted_finalizeClient h hrun
    exact ⟨ht, hunlinked ▸ List.prefix_rfl⟩
  | readEntry calendar globalNow entry =>
    cases hrun
    have hframe := readEntry_frame calendar globalNow entry s
    exact ⟨h.of_frame hframe (balance_readEntry calendar globalNow entry s), hframe.unlinked⟩
  | openLog calendar globalNow malloc =>
    cases hrun
    have hframe := openLog_frame calendar globalNow malloc s
    exact ⟨h.of_frame hframe (balance_openLog calendar globalNow malloc s), hframe.unlinked⟩
  | cleanup globalNow =>
    cases hrun
    refine ⟨⟨h.rings, delete_memory_lt h.memory_lt _, ?_⟩, List.prefix_append _ _⟩
    rw [cleanup, balance_delete]
    exact h.balance_eq
  | print result =>
    have hbalance := balance_print hrun
    obtain ⟨last, hlast, rfl⟩ := Option.map_eq_some_iff.mp hrun
    exact ⟨⟨h.rings, h.memory_lt, hbalance.trans h.balance_eq⟩, List.prefix_rfl⟩

/-- A step: the blocks that are alive after it fit the address space. -/
def HoldingsStep (s : Holdings) (event : HoldingsEvent) (t : Holdings) : Prop :=
  s.run event = some t ∧ t.total < 2 ^ 64

/-- The logs an event deletes. -/
def HoldingsEvent.deleted (s : Holdings) (event : HoldingsEvent) : List HeldLog :=
  match s.run event with
  | none => []
  | some t => t.unlinked.drop s.unlinked.length

/-- The paths of the logs an event deletes are as long, together, as what was requested for them. -/
def HoldingsEvent.Releases (s : Holdings) (event : HoldingsEvent) : Prop :=
  ((event.deleted s).map HeldLog.stated).sum % 2 ^ 64
    = ((event.deleted s).map HeldLog.requested).sum % 2 ^ 64

theorem excess_eq_zero_iff (gone : List HeldLog) :
    excess gone = 0 ↔
      (gone.map HeldLog.stated).sum % 2 ^ 64 = (gone.map HeldLog.requested).sum % 2 ^ 64 := by
  have hexcess : excess gone
      = ((gone.map HeldLog.requested).sum : ℕ) - ((gone.map HeldLog.stated).sum : ℕ) := by
    induction gone with
    | nil => simp [excess]
    | cons held gone ih =>
      simp only [excess, List.map_cons, List.sum_cons] at ih ⊢
      rw [ih]
      push_cast
      ring
  rw [hexcess, sub_eq_zero, ZMod.natCast_eq_natCast_iff', eq_comm]
  rfl

/-- The counter is right exactly when the deleted logs account for nothing. -/
theorem Holdings.Counted.memory_eq_iff {s : Holdings} (h : s.Counted) (htotal : s.total < 2 ^ 64) :
    s.memory = s.total ↔ excess s.unlinked = 0 := by
  have hbalance := h.balance_eq
  have hcast : (s.memory : ZMod sizeModulus) = s.total ↔ s.memory = s.total := by
    rw [ZMod.natCast_eq_natCast_iff']
    have hmodulus : sizeModulus = 2 ^ 64 := rfl
    rw [hmodulus, Nat.mod_eq_of_lt h.memory_lt, Nat.mod_eq_of_lt htotal]
  rw [← hcast, ← sub_eq_zero]
  rw [balance, sub_eq_zero] at hbalance
  rw [hbalance]

/-- What an event adds to the excess. -/
theorem Holdings.Counted.excess_run {s t : Holdings} (h : s.Counted) {event : HoldingsEvent}
    (hfits : event.Fits s) (hrun : s.run event = some t) :
    excess t.unlinked = excess s.unlinked + excess (event.deleted s) := by
  obtain ⟨-, hprefix⟩ := h.run hfits hrun
  have hsplit := List.prefix_iff_eq_append.mp hprefix
  rw [HoldingsEvent.deleted, hrun, ← excess_append, hsplit]

/-- `max_memory` in `server_accept_traffic` -/
def Holdings.maxMemory (s : Holdings) : Bool := s.memory ≥ maxMemoryUsage

/-- The invariant of runs that release what they requested. -/
structure Holdings.Exact (s : Holdings) : Prop where
  counted : s.Counted
  excess_eq : excess s.unlinked = 0
  total_lt : s.total < 2 ^ 64

theorem Holdings.Exact.step {s t : Holdings} (h : s.Exact) {event : HoldingsEvent}
    (hfits : event.Fits s) (hreleases : event.Releases s) (hstep : HoldingsStep s event t) :
    t.Exact := by
  refine ⟨(h.counted.run hfits hstep.1).1, ?_, hstep.2⟩
  rw [h.counted.excess_run hfits hstep.1, h.excess_eq, (excess_eq_zero_iff _).mpr hreleases, add_zero]

/-- In every run in which the paths of deleted logs are as long as requested, `g_memory` is the number
of bytes that are held, and the next event keeps it so exactly when it goes on like this. -/
theorem memory_eq_total {s : Holdings} {events : List HoldingsEvent}
    (hrun : Runs (StepsWhere (fun s event => event.Fits s ∧ event.Releases s) HoldingsStep)
      .empty events s) :
    (s.memory = s.total ∧ (s.maxMemory = true ↔ s.total ≥ maxMemoryUsage)) ∧
      ∀ event t, event.Fits s → HoldingsStep s event t →
        (t.memory = t.total ↔ event.Releases s) := by
  have hempty : Holdings.empty.Exact := ⟨Holdings.empty_counted, rfl, Nat.two_pow_pos 64⟩
  have h : s.Exact := hrun.invariant hempty fun _ _ _ hs hstep =>
    hs.step hstep.1.1 hstep.1.2 hstep.2
  have hmemory := (h.counted.memory_eq_iff h.total_lt).mpr h.excess_eq
  refine ⟨⟨hmemory, ?_⟩, ?_⟩
  · rw [Holdings.maxMemory, decide_eq_true_iff, hmemory]
  · intro event t hfits hstep
    rw [(h.counted.run hfits hstep.1).1.memory_eq_iff hstep.2, h.counted.excess_run hfits hstep.1,
      h.excess_eq, zero_add, excess_eq_zero_iff, HoldingsEvent.Releases]

/-- The holdings with one log of a day, as `output_open` makes it, and one client. -/
def someHoldings (memory : ℕ) (ring : Ring) : Holdings where
  memory := memory
  clients := [{ Client.zero with requestStream := ring }]
  logs := [⟨⟨1782000000, 0, 0, logPath someCalendar 1782000000 0⟩, Holdings.newLogRequest⟩]
  totalSize := 0
  unlinked := []

/-- A log is created, a client accepted, and a ring reserved for it. -/
theorem memory_eq_total_reserved :
    ((someHoldings 46 ⟨[0, 0, 0, 0], 0, 4, 0⟩).memory
        = (someHoldings 46 ⟨[0, 0, 0, 0], 0, 4, 0⟩).total ∧
      ((someHoldings 46 ⟨[0, 0, 0, 0], 0, 4, 0⟩).maxMemory = true ↔
        (someHoldings 46 ⟨[0, 0, 0, 0], 0, 4, 0⟩).total ≥ maxMemoryUsage)) ∧
      ∀ event t, event.Fits (someHoldings 46 ⟨[0, 0, 0, 0], 0, 4, 0⟩) →
        HoldingsStep (someHoldings 46 ⟨[0, 0, 0, 0], 0, 4, 0⟩) event t →
        (t.memory = t.total ↔ event.Releases (someHoldings 46 ⟨[0, 0, 0, 0], 0, 4, 0⟩)) := by
  have haccept : StepsWhere (fun s event => event.Fits s ∧ event.Releases s) HoldingsStep .empty
      .accept { Holdings.empty with clients := [.zero] } :=
    ⟨⟨trivial, rfl⟩, rfl, by decide⟩
  have hopen : StepsWhere (fun s event => event.Fits s ∧ event.Releases s) HoldingsStep
      { Holdings.empty with clients := [.zero] } (.openLog someCalendar 1782036000 true)
      (someHoldings 42 .zero) :=
    ⟨⟨trivial, rfl⟩, rfl, by decide⟩
  have hreserve : StepsWhere (fun s event => event.Fits s ∧ event.Releases s) HoldingsStep
      (someHoldings 42 .zero) (.ring 0 .requestStream (.reserve 3 (some fun _ => 0)))
      (someHoldings 46 ⟨[0, 0, 0, 0], 0, 4, 0⟩) :=
    ⟨⟨fun _ _ => trivial, rfl⟩, rfl, by decide⟩
  exact memory_eq_total (.cons haccept (.cons hopen (.cons hreserve (.nil _))))

/-- A log that `output_open` made is deleted a week later: five bytes stay counted for ever. -/
theorem memory_drifts : ¬ ∀ (events : List HoldingsEvent) (s : Holdings),
    Runs (StepsWhere (fun s event => event.Fits s) HoldingsStep) .empty events s →
    s.memory = s.total := by
  intro h
  have hopen : StepsWhere (fun s event => event.Fits s) HoldingsStep .empty
      (.openLog someCalendar 1782036000 true)
      { someHoldings 42 .zero with clients := [] } :=
    ⟨trivial, rfl, by decide⟩
  have hcleanup : StepsWhere (fun s event => event.Fits s) HoldingsStep
      { someHoldings 42 .zero with clients := [] } (.cleanup 1782604801)
      { Holdings.empty with memory := 5, unlinked := (someHoldings 42 .zero).logs } :=
    ⟨trivial, rfl, by decide⟩
  exact absurd (h _ _ (.cons hopen (.cons hcleanup (.nil _)))) (by decide)

end Twinkleshine
