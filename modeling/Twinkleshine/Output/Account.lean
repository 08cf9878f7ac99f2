import Twinkleshine.Output.Open

/-!
# The account of logs

Reference: `delete`, `cleanup`, `insert` and `output_vprint` in `source/output.c`.

Whatever order the logs are in, none is lost: what was inserted is in the array or was unlinked. The
running total is the sum of the sizes, and `cleanup` brings it below its limit.
-/

namespace Twinkleshine

open Library

variable {s t : Logs} {events : List LogsEvent}

/-! ## Calls and what is printed -/

/-- What is printed is added to the size of the last log. -/
def Logs.grow (result : ℕ) (s : Logs) : Option Logs :=
  s.logs.getLast?.map fun last => { s with
    logs := s.logs.dropLast ++ [{ last with size := sizeAdd last.size result }]
    totalSize := sizeAdd s.totalSize result }

/-- `output_vprint` does so while a file is open. -/
theorem outputVprint_grow {output : Output} (result : ℕ) (hopen : output.file ≠ none)
    (hfine : output.catastrophic = false) : outputVprint (some result) output
      = (output.logs.grow result).map fun logs => { output with logs := logs } := by
  rw [outputVprint, if_neg (by rw [hfine]; exact Bool.false_ne_true), if_neg hopen, Logs.grow,
    Option.map_map]
  rfl

/-- A call of `insert` or `cleanup`, or something printed. -/
inductive AccountEvent where
  | call (event : LogsEvent)
  | print (result : ℕ)

/-- One event; something is printed only while there is a last log. -/
inductive AccountStep : Logs → AccountEvent → Logs → Prop where
  | call (s : Logs) (event : LogsEvent) : AccountStep s (.call event) (s.step event)
  | print {s t : Logs} {result : ℕ} (h : s.grow result = some t) : AccountStep s (.print result) t

/-- The bytes an event adds. -/
def AccountEvent.added : AccountEvent → ℕ
  | call (.insert _ log) => log.size
  | call (.cleanup _) => 0
  | print result => result

/-- The logs an event inserts. -/
def AccountEvent.inserted : AccountEvent → List Log
  | call (.insert _ log) => [log]
  | call (.cleanup _) | print _ => []

/-- The sum of the sizes stays below `2 ^ 64`. -/
def SumFits (s : Logs) (event : AccountEvent) : Prop :=
  (s.logs.map Log.size).sum + event.added < 2 ^ 64

/-- Which log this is, whatever its size. -/
def Log.unsized (log : Log) : Log := { log with size := 0 }

/-- All logs that were known, stored and unlinked. -/
def Logs.known (s : Logs) : List Log := (s.logs ++ s.unlinked).map Log.unsized

/-! ## What is in the array -/

/-- The array is not overfull, and the running total is the sum of the sizes. -/
structure Accounted (s : Logs) : Prop where
  length_le : s.logs.length ≤ maxTotalLogNumber
  sum_lt : (s.logs.map Log.size).sum < 2 ^ 64
  total : s.totalSize = (s.logs.map Log.size).sum

theorem Logs.empty_accounted : Accounted Logs.empty := ⟨Nat.zero_le _, by decide, rfl⟩

theorem Accounted.totalHolds (h : Accounted s) : s.TotalHolds := by
  rw [Logs.TotalHolds, Nat.mod_eq_of_lt h.sum_lt]
  exact h.total

theorem Logs.TotalHolds.accounted (h : s.TotalHolds) (hlength : s.logs.length ≤ maxTotalLogNumber)
    (hsum : (s.logs.map Log.size).sum < 2 ^ 64) : Accounted s :=
  ⟨hlength, hsum, h.trans (Nat.mod_eq_of_lt hsum)⟩

/-- Fewer logs are not larger in all. -/
theorem sum_size_le {kept all : List Log} (h : kept.Sublist all) :
    (kept.map Log.size).sum ≤ (all.map Log.size).sum :=
  List.Sublist.sum_le_sum (h.map Log.size) fun _ _ => Nat.zero_le _

/-- The first logs go. -/
theorem Accounted.delete (h : Accounted s) (number : ℕ) : Accounted (s.delete number) := by
  have hsub : (s.delete number).logs.Sublist s.logs := List.drop_sublist _ _
  exact (h.totalHolds.delete number).accounted (hsub.length_le.trans h.length_le)
    ((sum_size_le hsub).trans_lt h.sum_lt)

/-- `cleanup` ends at a log that may stay, so that the rest is below the limit, or when no log is
left. -/
theorem cleanupCount_sum (globalNow : ℤ) {logs : List Log} {total : ℕ}
    (htotal : total = (logs.map Log.size).sum) (hsum : total < 2 ^ 64) :
    ((logs.drop (cleanupCount globalNow logs total)).map Log.size).sum ≤ maxTotalLogSize := by
  induction logs generalizing total with
  | nil => exact Nat.zero_le _
  | cons log logs ih =>
    rw [List.map_cons, List.sum_cons] at htotal
    rw [cleanupCount]
    split_ifs with hgoes
    · refine ih ?_ ?_
      · rw [sizeSub_eq (by omega) hsum]
        omega
      · rw [sizeSub_eq (by omega) hsum]
        omega
    · obtain ⟨-, hsmall⟩ := not_or.mp hgoes
      rw [List.drop_zero, List.map_cons, List.sum_cons, ← htotal]
      exact Nat.not_lt.mp hsmall

theorem Accounted.cleanup (h : Accounted s) (globalNow : ℤ) :
    Accounted (s.cleanup globalNow) ∧ (s.cleanup globalNow).totalSize ≤ maxTotalLogSize := by
  have hcleaned : Accounted (s.cleanup globalNow) := h.delete _
  refine ⟨hcleaned, ?_⟩
  rw [hcleaned.total]
  exact cleanupCount_sum globalNow h.total (h.total ▸ h.sum_lt)

/-- The array is full, and the place of the log would be the first. -/
def Logs.Refuses (s : Logs) (log : Log) : Prop :=
  s.logs.length = maxTotalLogNumber ∧ insertPlace log s.logs s.logs.length = 0

/-- A log that is not refused finds its place in the array, with a log less where it was full, and the
rest is `cleanup`. -/
theorem Logs.insert_room (hs : Accounted s) {log : Log}
    (hsum : (s.logs.map Log.size).sum + log.size < 2 ^ 64) (hroom : ¬ s.Refuses log)
    (globalNow : ℤ) : ∃ u, Accounted u ∧ s.insert globalNow log = u.cleanup globalNow := by
  -- a log that is put into the middle adds its size to the total
  have hput : ∀ (u : Logs) (i : ℕ), Accounted u → u.logs.length < maxTotalLogNumber →
      (u.logs.map Log.size).sum + log.size < 2 ^ 64 → Accounted { u with
        logs := u.logs.take i ++ log :: u.logs.drop i
        totalSize := sizeAdd u.totalSize log.size } := by
    intro u i hu hlength hfits
    have hperm : (u.logs.take i ++ log :: u.logs.drop i).Perm (log :: u.logs) :=
      List.perm_middle.trans (by rw [List.take_append_drop])
    have hall := (hperm.map Log.size).sum_eq
    rw [List.map_cons, List.sum_cons] at hall
    have hcount := hperm.length_eq
    rw [List.length_cons] at hcount
    refine ⟨?_, ?_, ?_⟩
    · dsimp only
      omega
    · dsimp only
      omega
    · dsimp only
      rw [hu.total, sizeAdd_eq hfits, hall, Nat.add_comm]
  unfold Logs.insert
  rw [Logs.Refuses] at hroom
  rw [if_neg hroom]
  -- when the array is full, the first log is deleted to make room
  by_cases hfull : s.logs.length = maxTotalLogNumber ∧
      insertPlace log s.logs s.logs.length > 0
  · rw [if_pos hfull]
    have hmax : maxTotalLogNumber = 16 := rfl
    have hdrop : (s.delete 1).logs = s.logs.drop 1 := rfl
    have hless := sum_size_le (List.drop_sublist 1 s.logs)
    refine ⟨_, hput (s.delete 1) _ (hs.delete 1) ?_ ?_, rfl⟩
    · rw [hdrop, List.length_drop]
      omega
    · rw [hdrop]
      omega
  · rw [if_neg hfull]
    refine ⟨_, hput s _ hs (lt_of_le_of_ne hs.length_le fun hlength => ?_) hsum, rfl⟩
    exact hfull ⟨hlength, Nat.pos_of_ne_zero fun hzero => hroom ⟨hlength, hzero⟩⟩

theorem Accounted.insert (hs : Accounted s) {log : Log}
    (hsum : (s.logs.map Log.size).sum + log.size < 2 ^ 64) (globalNow : ℤ) :
    Accounted (s.insert globalNow log) ∧
      (¬ s.Refuses log → (s.insert globalNow log).totalSize ≤ maxTotalLogSize) := by
  by_cases hroom : s.Refuses log
  · refine ⟨?_, fun h => absurd hroom h⟩
    unfold Logs.insert
    rw [Logs.Refuses] at hroom
    rw [if_pos hroom]
    exact ⟨hs.length_le, hs.sum_lt, hs.total⟩
  · obtain ⟨u, hu, heq⟩ := Logs.insert_room hs hsum hroom globalNow
    rw [heq]
    exact ⟨(hu.cleanup globalNow).1, fun _ => (hu.cleanup globalNow).2⟩

/-- What is printed is added to the last log and to the total alike. -/
theorem Accounted.grow (hs : Accounted s) {result : ℕ}
    (hsum : (s.logs.map Log.size).sum + result < 2 ^ 64) (h : s.grow result = some t) :
    Accounted t := by
  obtain ⟨last, hlast, rfl⟩ := Option.map_eq_some_iff.mp h
  have hsplit := List.dropLast_append_getLast? last hlast
  have hall : ((s.logs.dropLast ++ [last]).map Log.size).sum = (s.logs.map Log.size).sum := by
    rw [hsplit]
  have hcount : (s.logs.dropLast ++ [last]).length = s.logs.length := by rw [hsplit]
  have hlength := hs.length_le
  simp only [List.map_append, List.map_cons, List.map_nil, List.sum_append, List.sum_cons,
    List.sum_nil, List.length_append, List.length_singleton] at hall hcount
  have hgrown : sizeAdd last.size result = last.size + result := sizeAdd_eq (by omega)
  refine ⟨?_, ?_, ?_⟩
  · simp only [List.length_append, List.length_singleton]
    omega
  · simp only [List.map_append, List.map_cons, List.map_nil, List.sum_append, List.sum_cons,
      List.sum_nil, hgrown]
    omega
  · simp only [List.map_append, List.map_cons, List.map_nil, List.sum_append, List.sum_cons,
      List.sum_nil, hgrown, hs.total, sizeAdd_eq hsum]
    omega

theorem AccountStep.accounted {event : AccountEvent} (hs : Accounted s) (hfits : SumFits s event)
    (h : AccountStep s event t) : Accounted t := by
  cases h with
  | call event =>
    cases event with
    | insert globalNow log => exact (hs.insert hfits globalNow).1
    | cleanup globalNow => exact (hs.cleanup globalNow).1
  | print h => exact hs.grow hfits h

/-! ## Which logs are known -/

/-- Logs that move from the array to those that were unlinked are still known. -/
theorem Logs.known_perm {gone all : List Log} (hunlinked : t.unlinked = s.unlinked ++ gone)
    (hsplit : gone ++ t.logs = all) : t.known.Perm ((all ++ s.unlinked).map Log.unsized) := by
  refine List.Perm.map Log.unsized ?_
  rw [hunlinked, ← hsplit, List.append_assoc gone, ← List.append_assoc t.logs]
  exact List.perm_append_comm

/-- What an event inserts is known after it, once more, and nothing else. -/
theorem AccountStep.known {event : AccountEvent} (h : AccountStep s event t) :
    t.known.Perm (s.known ++ event.inserted.map Log.unsized) := by
  cases h with
  | call event =>
    cases event with
    | insert globalNow log =>
      obtain ⟨gone, hunlinked, hsplit⟩ := s.insert_split globalNow log
      refine (Logs.known_perm hunlinked hsplit).trans ?_
      have hperm : (s.logs.take (insertPlace log s.logs s.logs.length) ++
          log :: s.logs.drop (insertPlace log s.logs s.logs.length)).Perm (log :: s.logs) :=
        List.perm_middle.trans (by rw [List.take_append_drop])
      rw [Logs.known, AccountEvent.inserted, ← List.map_append]
      refine List.Perm.map Log.unsized ((hperm.append_right s.unlinked).trans ?_)
      exact (List.perm_append_singleton log (s.logs ++ s.unlinked)).symm
    | cleanup globalNow =>
      obtain ⟨gone, hunlinked, hsplit⟩ := s.cleanup_split globalNow
      rw [AccountEvent.inserted, List.map_nil, List.append_nil]
      exact Logs.known_perm hunlinked hsplit
  | print h =>
    obtain ⟨last, hlast, rfl⟩ := Option.map_eq_some_iff.mp h
    have hsplit := List.dropLast_append_getLast? last hlast
    rw [AccountEvent.inserted, List.map_nil, List.append_nil, Logs.known, Logs.known]
    conv_rhs => rw [← hsplit]
    simp only [List.map_append, List.map_cons, List.map_nil, Log.unsized]
    exact List.Perm.refl _

/-- A run with what it inserts. -/
theorem accountRun_known {events : List AccountEvent}
    (hrun : Runs (StepsWhere SumFits AccountStep) s events t) :
    t.known.Perm (s.known ++ (events.flatMap AccountEvent.inserted).map Log.unsized) := by
  induction hrun with
  | nil s =>
    rw [List.flatMap_nil, List.map_nil, List.append_nil]
  | cons head tail ih =>
    rw [List.flatMap_cons, List.map_append, ← List.append_assoc]
    exact ih.trans (head.2.known.append_right _)

/-- In every run of calls and of what is printed, the array is not overfull, the running total is the sum
of the sizes, every log that was inserted is stored or was unlinked, and once only, and after every
`cleanup`, also at the end of `insert`, the total is below its limit. -/
theorem accountRun_accounted {events : List AccountEvent}
    (hrun : Runs (StepsWhere SumFits AccountStep) Logs.empty events s) :
    s.logs.length ≤ maxTotalLogNumber ∧ s.totalSize = (s.logs.map Log.size).sum ∧
      s.known.Perm ((events.flatMap AccountEvent.inserted).map Log.unsized) ∧
      (∀ globalNow, (s.cleanup globalNow).totalSize ≤ maxTotalLogSize) ∧
      ∀ globalNow log, SumFits s (.call (.insert globalNow log)) → ¬ s.Refuses log →
        (s.insert globalNow log).totalSize ≤ maxTotalLogSize := by
  have hs : Accounted s := hrun.invariant Logs.empty_accounted fun _ _ _ hs h => h.2.accounted hs h.1
  exact ⟨hs.length_le, hs.total, accountRun_known hrun, fun globalNow => (hs.cleanup globalNow).2,
    fun globalNow _ hfits => (hs.insert hfits globalNow).2⟩

/-- Two logs, the first of which is printed to. -/
theorem accountRun_accounted_two :
    ∃ s : Logs, s.logs.length = 2 ∧ s.totalSize = 205 ∧ s.totalSize = (s.logs.map Log.size).sum := by
  have hrun : Runs (StepsWhere SumFits AccountStep) Logs.empty
      [.call (.insert 10 (dayLog 0)), .print 5, .call (.insert 20 (dayLog 0))]
      ⟨[⟨0, 0, 105, []⟩, dayLog 0], 205, []⟩ :=
    .cons ⟨show 0 + 100 < 2 ^ 64 by decide, .call _ _⟩
      (.cons ⟨show 100 + 5 < 2 ^ 64 by decide, .print rfl⟩
        (.cons ⟨show 105 + 100 < 2 ^ 64 by decide, .call _ (.insert 20 (dayLog 0))⟩ (.nil _)))
  exact ⟨_, rfl, rfl, (accountRun_accounted hrun).2.1⟩

end Twinkleshine
