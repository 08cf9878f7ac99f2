import Twinkleshine.Constants
import Twinkleshine.Library.Transition
import Mathlib.Data.List.Basic

/-!
# The array of logs

Reference: `source/output.c`.

`g_logs` is meant to hold the logs oldest first: `cleanup` deletes from its front, and a new log takes
the place of the first when the array is full. The loop of `insert` compares the other way round, and
puts a log in front of those that are older.
-/

namespace Twinkleshine

open Library

/-! ## Logs -/

/-- `struct Log` -/
structure Log where
  /-- Nominal log start, derived from name -/
  globalStart : ℤ
  /-- Log number, derived from name -/
  number : ℕ
  /-- Log size, bytes -/
  size : ℕ
  /-- Full file path -/
  path : List UInt8
deriving DecidableEq, Repr

/-- `ZERO_INIT` -/
def Log.zero : Log := ⟨0, 0, 0, []⟩

/-- `g_logs` and `g_logs_total_size`, with the logs that were deleted. -/
structure Logs where
  logs : List Log
  totalSize : ℕ
  /-- What was given to `unlink()` -/
  unlinked : List Log
deriving DecidableEq, Repr

/-- Before any log is known. -/
def Logs.empty : Logs := ⟨[], 0, []⟩

/-- `delete`: the first logs go. -/
def Logs.delete (number : ℕ) (s : Logs) : Logs where
  logs := s.logs.drop number
  totalSize := (s.logs.take number).foldl (fun total log => sizeSub total log.size) s.totalSize
  unlinked := s.unlinked ++ s.logs.take number

/-- The loop of `cleanup`: how many logs are deleted. -/
def cleanupCount (globalNow : ℤ) : List Log → (localLogsTotalSize : ℕ) → ℕ
  | [], _ => 0
  | log :: logs, localLogsTotalSize =>
    if globalNow - log.globalStart > maxLogAge ∨ localLogsTotalSize > maxTotalLogSize then
      cleanupCount globalNow logs (sizeSub localLogsTotalSize log.size) + 1
    else 0

/-- `cleanup` -/
def Logs.cleanup (globalNow : ℤ) (s : Logs) : Logs :=
  s.delete (cleanupCount globalNow s.logs s.totalSize)

/-- `new_log_is_newer` -/
def Log.isNewer (log old : Log) : Bool :=
  if log.globalStart > old.globalStart then true
  else if log.globalStart < old.globalStart then false
  else if log.number > old.number then true
  else false

/-- The loop of `insert` that finds the place of a new log, from place `i` on downwards. -/
def insertPlace (log : Log) (logs : List Log) : (i : ℕ) → ℕ
  | 0 => 0
  | i + 1 => if log.isNewer (logs.getD i .zero) then insertPlace log logs i else i + 1

/-- `insert` -/
def Logs.insert (globalNow : ℤ) (log : Log) (s : Logs) : Logs :=
  let i := insertPlace log s.logs s.logs.length
  if s.logs.length = maxTotalLogNumber ∧ i = 0 then
    { s with unlinked := s.unlinked ++ [log] }
  else
    let (s, i) :=
      if s.logs.length = maxTotalLogNumber ∧ i > 0 then (s.delete 1, i - 1) else (s, i)
    Logs.cleanup globalNow { s with
      logs := s.logs.take i ++ log :: s.logs.drop i
      totalSize := sizeAdd s.totalSize log.size }

/-! ## Age -/

/-- A log is at least as old as another. -/
def Log.NotNewer (a b : Log) : Prop :=
  a.globalStart < b.globalStart ∨ a.globalStart = b.globalStart ∧ a.number ≤ b.number

/-- Two logs are of the same day, and have the same number. -/
def Log.SameAge (a b : Log) : Prop := a.globalStart = b.globalStart ∧ a.number = b.number

/-- `g_logs` is as its comment says: oldest first. -/
def OldestFirst (logs : List Log) : Prop := logs.Pairwise Log.NotNewer

theorem Log.isNewer_iff {log old : Log} : log.isNewer old = true ↔ ¬ log.NotNewer old := by
  simp only [Log.isNewer, Log.NotNewer]
  split_ifs <;> simp <;> omega

theorem Log.NotNewer.refl (log : Log) : log.NotNewer log := .inr ⟨rfl, Nat.le_refl _⟩

theorem Log.NotNewer.trans {a b c : Log} (h : a.NotNewer b) (h' : b.NotNewer c) : a.NotNewer c := by
  unfold Log.NotNewer at *
  omega

theorem Log.NotNewer.total (a b : Log) : a.NotNewer b ∨ b.NotNewer a := by
  unfold Log.NotNewer
  omega

/-- Logs that are as old as each other are of the same age. -/
theorem Log.NotNewer.antisymm {a b : Log} (h : a.NotNewer b) (h' : b.NotNewer a) : a.SameAge b := by
  unfold Log.NotNewer at *
  unfold Log.SameAge
  omega

theorem Log.SameAge.notNewer {a b : Log} (h : a.SameAge b) : a.NotNewer b ∧ b.NotNewer a := by
  unfold Log.SameAge at h
  unfold Log.NotNewer
  omega

/-! ## What is deleted and what is kept -/

/-- The logs `all` are split into those that go and those that stay; when they are oldest first, none
that goes is newer than one that stays. -/
theorem notNewer_of_split {all gone kept : List Log} (h : OldestFirst all) (hsplit : gone ++ kept = all) :
    OldestFirst kept ∧ ∀ log ∈ gone, ∀ other ∈ kept, log.NotNewer other := by
  subst hsplit
  obtain ⟨-, hkept, hboth⟩ := List.pairwise_append.mp h
  exact ⟨hkept, hboth⟩

/-- No log is newer than the last. -/
theorem OldestFirst.notNewer_getLast {logs : List Log} (h : OldestFirst logs) (hne : logs ≠ [])
    {log : Log} (hlog : log ∈ logs) : log.NotNewer (logs.getLast hne) := by
  have hsplit := h
  rw [← List.dropLast_append_getLast hne] at hsplit hlog
  rcases List.mem_append.mp hlog with hfront | hlast
  · exact (List.pairwise_append.mp hsplit).2.2 log hfront _ (List.mem_singleton_self _)
  · rw [List.mem_singleton.mp hlast]
    exact .refl _

/-- What `cleanup` keeps is not too old, when the logs are oldest first. -/
theorem cleanupCount_young (globalNow : ℤ) {logs : List Log} (h : OldestFirst logs) (total : ℕ) :
    ∀ log ∈ logs.drop (cleanupCount globalNow logs total),
      globalNow - log.globalStart ≤ maxLogAge := by
  induction logs generalizing total with
  | nil =>
    intro log hlog
    cases hlog
  | cons first logs ih =>
    obtain ⟨hfirst, hlogs⟩ := List.pairwise_cons.mp h
    rw [cleanupCount]
    split_ifs with hold
    · exact ih hlogs _
    · intro log hlog
      rcases List.mem_cons.mp hlog with rfl | hlog
      · omega
      · have := hfirst log hlog
        unfold Log.NotNewer at this
        omega

/-- `cleanup` splits the logs. -/
theorem Logs.cleanup_split (globalNow : ℤ) (s : Logs) : ∃ gone,
    (s.cleanup globalNow).unlinked = s.unlinked ++ gone ∧
      gone ++ (s.cleanup globalNow).logs = s.logs :=
  ⟨_, rfl, List.take_append_drop _ _⟩

/-- `insert` puts the log at its place, and splits the logs. -/
theorem Logs.insert_split (globalNow : ℤ) (log : Log) (s : Logs) : ∃ gone,
    (s.insert globalNow log).unlinked = s.unlinked ++ gone ∧
      gone ++ (s.insert globalNow log).logs
        = s.logs.take (insertPlace log s.logs s.logs.length) ++
          log :: s.logs.drop (insertPlace log s.logs s.logs.length) := by
  unfold Logs.insert
  set i := insertPlace log s.logs s.logs.length with hi
  by_cases hrefused : s.logs.length = maxTotalLogNumber ∧ i = 0
  · rw [if_pos hrefused, hrefused.2]
    exact ⟨[log], rfl, rfl⟩
  rw [if_neg hrefused]
  by_cases hfull : s.logs.length = maxTotalLogNumber ∧ i > 0
  · -- the first log makes room
    rw [if_pos hfull]
    obtain ⟨gone, hgone, hsplit⟩ := Logs.cleanup_split globalNow { s.delete 1 with
      logs := (s.delete 1).logs.take (i - 1) ++ log :: (s.delete 1).logs.drop (i - 1)
      totalSize := sizeAdd (s.delete 1).totalSize log.size }
    refine ⟨s.logs.take 1 ++ gone, ?_, ?_⟩
    · exact hgone.trans (List.append_assoc _ _ _)
    · rw [List.append_assoc]
      refine (congrArg (s.logs.take 1 ++ ·) hsplit).trans ?_
      have hdrop : (s.delete 1).logs = s.logs.drop 1 := rfl
      have htake : s.logs.take 1 ++ (s.logs.drop 1).take (i - 1) = s.logs.take i := by
        rw [← List.take_add, show 1 + (i - 1) = i by omega]
      rw [hdrop, List.drop_drop, show 1 + (i - 1) = i by omega, ← List.append_assoc, htake]
  · rw [if_neg hfull]
    exact Logs.cleanup_split globalNow { s with
      logs := s.logs.take i ++ log :: s.logs.drop i
      totalSize := sizeAdd s.totalSize log.size }

/-! ## Where a log is put -/

/-- A log that is not newer than the last is put behind it. -/
theorem insertPlace_of_notNewer {log : Log} {logs : List Log} (hne : logs ≠ [])
    (h : log.NotNewer (logs.getLast hne)) : insertPlace log logs logs.length = logs.length := by
  obtain ⟨n, hn⟩ : ∃ n, logs.length = n + 1 :=
    Nat.exists_eq_succ_of_ne_zero fun hzero => hne (List.eq_nil_of_length_eq_zero hzero)
  have hlast : logs.getD n .zero = logs.getLast hne := by
    rw [List.getLast_eq_getElem, List.getD_eq_getElem?_getD, List.getElem?_eq_getElem (by omega)]
    simp only [hn, Nat.add_sub_cancel, Option.getD_some]
  rw [hn, insertPlace, hlast, if_neg]
  rw [Log.isNewer_iff]
  exact not_not_intro h

/-- A log that is newer than all others is put in front of them. -/
theorem insertPlace_of_newer {log : Log} {logs : List Log}
    (h : ∀ old ∈ logs, ¬ log.NotNewer old) {i : ℕ} (hi : i ≤ logs.length) :
    insertPlace log logs i = 0 := by
  induction i with
  | zero => rfl
  | succ i ih =>
    rw [insertPlace, if_pos, ih (by omega)]
    rw [Log.isNewer_iff, List.getD_eq_getElem?_getD, List.getElem?_eq_getElem hi]
    exact h _ (List.getElem_mem hi)

/-! ## Every order of calls -/

/-- A call of `insert` or `cleanup`. -/
inductive LogsEvent where
  | insert (globalNow : ℤ) (log : Log)
  | cleanup (globalNow : ℤ)

/-- The time of a call -/
def LogsEvent.now : LogsEvent → ℤ
  | insert globalNow _ | cleanup globalNow => globalNow

def Logs.step (s : Logs) : LogsEvent → Logs
  | .insert globalNow log => s.insert globalNow log
  | .cleanup globalNow => s.cleanup globalNow

/-- A call leaves the logs oldest first, has deleted none that is newer than one it kept, and kept none
that is too old. -/
structure Retains (s t : Logs) (now : ℤ) : Prop where
  oldestFirst : OldestFirst t.logs
  deleted : ∃ gone, t.unlinked = s.unlinked ++ gone ∧
    ∀ log ∈ gone, ∀ kept ∈ t.logs, log.NotNewer kept
  young : ∀ kept ∈ t.logs, now - kept.globalStart ≤ maxLogAge

/-- The log that is inserted is the first, or as old as the last one that is there. -/
def Logs.Fits (s : Logs) (log : Log) : Prop :=
  s.logs = [] ∨ ∃ last ∈ s.logs.getLast?, log.SameAge last

/-- The condition on a call. -/
def Logs.Admits (s : Logs) : LogsEvent → Prop
  | .insert _ log => s.Fits log
  | .cleanup _ => True

theorem Logs.cleanup_retains {s : Logs} (h : OldestFirst s.logs) (globalNow : ℤ) :
    Retains s (s.cleanup globalNow) globalNow := by
  obtain ⟨gone, hgone, hsplit⟩ := s.cleanup_split globalNow
  obtain ⟨hkept, hboth⟩ := notNewer_of_split h hsplit
  exact ⟨hkept, ⟨gone, hgone, hboth⟩, cleanupCount_young globalNow h s.totalSize⟩

/-- Where a log that fits is put: behind all others, which leaves the logs oldest first. -/
theorem Logs.Fits.oldestFirst {s : Logs} (h : OldestFirst s.logs) {log : Log} (hfits : s.Fits log) :
    insertPlace log s.logs s.logs.length = s.logs.length ∧ OldestFirst (s.logs ++ [log]) := by
  rcases hfits with hnil | ⟨last, hlast, hsame⟩
  · rw [hnil]
    exact ⟨rfl, List.pairwise_singleton _ _⟩
  · have hne : s.logs ≠ [] := List.ne_nil_of_mem (List.mem_of_getLast? hlast)
    obtain rfl : s.logs.getLast hne = last :=
      Option.some.inj ((List.getLast?_eq_getLast_of_ne_nil hne).symm.trans hlast)
    obtain ⟨hle, hge⟩ := hsame.notNewer
    refine ⟨insertPlace_of_notNewer hne hle, List.pairwise_append.mpr
      ⟨h, List.pairwise_singleton _ _, fun old hold other hother => ?_⟩⟩
    rw [List.mem_singleton.mp hother]
    exact (h.notNewer_getLast hne hold).trans hge

/-- A log that is put behind all others may make room for itself, and then `cleanup` is all that is
left. -/
theorem Logs.insert_eq_cleanup {s : Logs} {log : Log} (globalNow : ℤ)
    (hplace : insertPlace log s.logs s.logs.length = s.logs.length) :
    ∃ u : Logs, s.insert globalNow log = u.cleanup globalNow ∧ u.logs <:+ s.logs ++ [log] := by
  unfold Logs.insert
  rw [hplace]
  by_cases hfull : s.logs.length = maxTotalLogNumber
  · have hlength : s.logs.length = 16 := hfull
    have hdelete : (s.delete 1).logs = s.logs.drop 1 := rfl
    have hrest : (s.logs.drop 1).length = s.logs.length - 1 := List.length_drop
    rw [if_neg (by omega), if_pos ⟨hfull, by omega⟩]
    refine ⟨_, rfl, s.logs.take 1, ?_⟩
    dsimp only
    rw [hdelete, ← hrest, List.take_length, List.drop_length, ← List.append_assoc,
      List.take_append_drop]
  · rw [if_neg (fun h => hfull h.1), if_neg (fun h => hfull h.1)]
    refine ⟨_, rfl, [], ?_⟩
    rw [List.nil_append, List.take_length, List.drop_length]

/-- A log that fits is inserted as it should be. -/
theorem Logs.insert_retains {s : Logs} (h : OldestFirst s.logs) {log : Log} (hfits : s.Fits log)
    (globalNow : ℤ) : Retains s (s.insert globalNow log) globalNow := by
  obtain ⟨hplace, hall⟩ := hfits.oldestFirst h
  obtain ⟨gone, hgone, hsplit⟩ := s.insert_split globalNow log
  rw [hplace, List.take_length, List.drop_length] at hsplit
  obtain ⟨hkept, hboth⟩ := notNewer_of_split hall hsplit
  refine ⟨hkept, ⟨gone, hgone, hboth⟩, ?_⟩
  obtain ⟨u, hu, hsuffix⟩ := Logs.insert_eq_cleanup globalNow hplace
  rw [hu]
  exact cleanupCount_young globalNow (hall.sublist hsuffix.sublist) u.totalSize

/-- A log that does not fit is inserted as it should be only if nothing is kept at all: it is put in
front of an older log, or behind a newer one. -/
theorem Logs.fits_of_retains {s : Logs} (h : OldestFirst s.logs) {log : Log} {globalNow : ℤ}
    (hretains : Retains s (s.insert globalNow log) globalNow)
    (hkept : (s.insert globalNow log).logs ≠ []) : s.Fits log := by
  by_cases hnil : s.logs = []
  · exact .inl hnil
  obtain ⟨gone, hgone, hsplit⟩ := s.insert_split globalNow log
  obtain ⟨gone', hgone', hboth⟩ := hretains.deleted
  obtain rfl : gone' = gone := List.append_cancel_left (hgone'.symm.trans hgone)
  have hle : ∀ other ∈ gone' ++ (s.insert globalNow log).logs,
      other.NotNewer ((s.insert globalNow log).logs.getLast hkept) := by
    intro other hother
    rcases List.mem_append.mp hother with hgoes | hstays
    · exact hboth other hgoes _ (List.getLast_mem hkept)
    · exact hretains.oldestFirst.notNewer_getLast hkept hstays
  -- the last log of all is kept
  have hlast : (gone' ++ (s.insert globalNow log).logs).getLast?
      = some ((s.insert globalNow log).logs.getLast hkept) := by
    rw [List.getLast?_append_of_ne_nil _ hkept, List.getLast?_eq_getLast_of_ne_nil hkept]
  rw [hsplit] at hle hlast
  refine .inr ⟨s.logs.getLast hnil, List.getLast?_eq_getLast_of_ne_nil hnil, ?_⟩
  by_cases hnewer : log.NotNewer (s.logs.getLast hnil)
  · -- put behind all others
    rw [insertPlace_of_notNewer hnil hnewer, List.take_length, List.drop_length] at hle hlast
    rw [List.getLast?_concat, Option.some.injEq] at hlast
    rw [← hlast] at hle
    exact hnewer.antisymm (hle _ (List.mem_append_left _ (List.getLast_mem hnil)))
  · -- put in front of all others
    have hall : ∀ old ∈ s.logs, ¬ log.NotNewer old := fun old hold hle' =>
      hnewer (hle'.trans (h.notNewer_getLast hnil hold))
    rw [insertPlace_of_newer hall (Nat.le_refl _), List.take_zero, List.drop_zero,
      List.nil_append] at hle hlast
    rw [List.getLast?_cons_of_ne_nil hnil, List.getLast?_eq_getLast_of_ne_nil hnil,
      Option.some.injEq] at hlast
    rw [← hlast] at hle
    exact absurd (hle _ List.mem_cons_self) hnewer

/-- A call the state admits. -/
def AdmittedStep (s : Logs) (event : LogsEvent) (t : Logs) : Prop :=
  s.Admits event ∧ t = s.step event

theorem AdmittedStep.retains {s t : Logs} {event : LogsEvent} (hs : OldestFirst s.logs)
    (h : AdmittedStep s event t) : Retains s t event.now := by
  obtain ⟨hadmits, rfl⟩ := h
  cases event with
  | insert globalNow log => exact Logs.insert_retains hs hadmits globalNow
  | cleanup globalNow => exact Logs.cleanup_retains hs globalNow

/-- In every run in which each inserted log is the first or as old as the last one, the logs are oldest
first and every call deletes what it should; and where they are oldest first, inserting another log goes
wrong unless nothing is kept. -/
theorem logsRun_retains {events : List LogsEvent} {s : Logs}
    (hrun : Runs AdmittedStep Logs.empty events s) :
    (OldestFirst s.logs ∧ ∀ event t, AdmittedStep s event t → Retains s t event.now) ∧
      ∀ (u : Logs) (log : Log) (globalNow : ℤ), OldestFirst u.logs →
        (u.insert globalNow log).logs ≠ [] →
        (Retains u (u.insert globalNow log) globalNow ↔ u.Fits log) := by
  have hempty : (fun s : Logs => OldestFirst s.logs) Logs.empty := List.Pairwise.nil
  have hordered := hrun.invariant hempty fun _ _ _ hs h => (h.retains hs).oldestFirst
  exact ⟨⟨hordered, fun _ _ h => h.retains hordered⟩, fun u log globalNow hu hkept =>
    ⟨fun hretains => Logs.fits_of_retains hu hretains hkept, fun hfits =>
      Logs.insert_retains hu hfits globalNow⟩⟩

/-- The log of a day, which begins at this time. -/
def dayLog (globalStart : ℤ) : Log := ⟨globalStart, 0, 100, []⟩

/-- A log is inserted, and then another of the same day and number. -/
theorem logsRun_retains_sameDay :
    OldestFirst ((Logs.empty.step (.insert 10 (dayLog 0))).step (.insert 20 (dayLog 0))).logs := by
  have hfirst : Logs.empty.Fits (dayLog 0) := .inl rfl
  have hsecond : (Logs.empty.step (.insert 10 (dayLog 0))).Fits (dayLog 0) :=
    .inr ⟨dayLog 0, by decide, rfl, rfl⟩
  have hrun : Runs AdmittedStep Logs.empty [.insert 10 (dayLog 0), .insert 20 (dayLog 0)] _ :=
    .cons ⟨hfirst, rfl⟩ (.cons ⟨hsecond, rfl⟩ (.nil _))
  exact (logsRun_retains hrun).1.1

/-- The logs of two days in order: the newer one is put in front. -/
theorem logsRun_newestFirst : ∃ s,
    Runs (fun s event t => t = Logs.step s event) Logs.empty
      [.insert 10 (dayLog 0), .insert 86410 (dayLog 86400)] s ∧ ¬ OldestFirst s.logs := by
  refine ⟨_, .cons rfl (.cons rfl (.nil _)), fun h => ?_⟩
  have hle : (dayLog 86400).NotNewer (dayLog 0) := List.rel_of_pairwise_cons h List.mem_cons_self
  unfold Log.NotNewer dayLog at hle
  dsimp only at hle
  omega

end Twinkleshine
