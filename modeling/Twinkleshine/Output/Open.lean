import Twinkleshine.Output.Logs
import Twinkleshine.Strtol
import Mathlib

/-!
# Which log is written to

Reference: `source/output.c`.

The log of the current day is meant to be the last one of `g_logs`, and that is the one `output_open`
opens. Calendars are those of the C library: they are a parameter.
-/

namespace Twinkleshine

open Library

/-! ## Calendars and directories -/

/-- What the C library knows of calendars. -/
structure Calendar where
  /-- `start`: the time at which the day of a time begins -/
  start : ℤ → ℤ
  /-- The day that begins at a time, printed with `%d-%02d-%02d` -/
  date : ℤ → List UInt8
  /-- `calender_to_time` of a `tm_year`, a `tm_mon` and a `tm_mday`, with a time to probe -/
  toTime : (year month day probe : ℤ) → ℤ

/-- An entry of the log directory, and how the outside answers while it is read. -/
structure DirectoryEntry where
  regular : Bool
  name : List UInt8
  /-- Whether there is memory for the path -/
  malloc : Bool
  /-- The size of the file, `none` if `stat()` failed -/
  status : Option ℕ

/-- `log_directory` -/
def logDirectory : List UInt8 := ascii "/var/log/twinkleshine/"

/-- One number of a date, and what follows its separator. -/
def readDatePart (separator : UInt8) (p : List UInt8) : Option (ℤ × List UInt8) :=
  match strtol p with
  | (_, []) => none
  | (number, c :: rest) =>
    if c :: rest = p ∨ c ≠ separator then none else some (number.bmod (2 ^ 32), rest)

/-- The start and the number of a log, from the name of its file; `none` when it is skipped. -/
def parseLogName (calendar : Calendar) (globalNow globalStart : ℤ) (name : List UInt8) :
    Option (ℤ × ℕ) :=
  -- parse date
  (readDatePart 45 name).bind fun (year, p) =>
  (readDatePart 45 p).bind fun (month, p) =>
  (readDatePart 46 p).bind fun (day, p) =>
  let logStart := calendar.toTime (year - 1900) (month - 1) day globalNow
  if logStart = -1 then none
  else if logStart > globalStart then none
  -- parse extension
  else if p ≠ ascii "log" then none
  else
    -- parse number
    match p.drop 3 with
    | [] => some (logStart, 0)
    | c :: p =>
      if c ≠ 46 then none
      else
        let (number, rest) := strtoul p
        if rest = p ∨ rest ≠ [] then none else some (logStart, number % uintModulus)

/-! ## The output -/

/-- The variables of the module. -/
structure Output where
  logs : Logs
  /-- Initialization failed, fall back to catastrophic output -/
  catastrophic : Bool
  /-- The log whose file is open -/
  file : Option Log
  /-- The time that was read last, which is not in the source -/
  clock : ℤ

/-- The loop of `output_module_initialize`. -/
def readDirectory (calendar : Calendar) (globalNow : ℤ) : List DirectoryEntry → Output → Output
  | [], s => s
  | entry :: directory, s =>
    if ¬ entry.regular then readDirectory calendar globalNow directory s
    else
      match parseLogName calendar globalNow (calendar.start globalNow) entry.name with
      | none => readDirectory calendar globalNow directory s
      | some (globalStart, number) =>
        if ¬ entry.malloc then { s with catastrophic := true }
        else
          match entry.status with
          | none => readDirectory calendar globalNow directory s
          | some size =>
            readDirectory calendar globalNow directory { s with
              logs := s.logs.insert globalNow ⟨globalStart, number, size, logDirectory ++ entry.name⟩ }

/-- `output_module_initialize`: the directory is `none` when it can neither be opened nor made. -/
def outputModuleInitialize (calendar : Calendar) (globalNow : ℤ)
    (directory : Option (List DirectoryEntry)) : Output :=
  let s : Output := ⟨Logs.empty, false, none, globalNow⟩
  match directory with
  | none => { s with catastrophic := true }
  | some directory => readDirectory calendar globalNow directory s

/-- The path of a log that is created. -/
def logPath (calendar : Calendar) (globalStart : ℤ) (number : ℕ) : List UInt8 :=
  logDirectory ++ calendar.date globalStart ++ ascii ".log" ++
    if number > 0 then ascii "." ++ ascii (uintText number) else []

/-- The number of the log that must be created, `none` if the last one is the right one. -/
def newLogNumber (globalStart : ℤ) (logs : List Log) : Option ℕ :=
  match logs.getLast? with
  | none => some 0
  | some last =>
    if last.globalStart ≠ globalStart then some 0
    else if last.size > maxLogSize then some ((last.number + 1) % uintModulus)
    else none

/-- Write to the last log; without one, the program reads outside of `g_logs`. -/
def openLast (opened : Bool) (s : Output) : Option Output :=
  s.logs.logs.getLast?.map fun last =>
    if opened then { s with file := some last } else { s with file := none, catastrophic := true }

/-- `output_open`, with the answers of `malloc()` and `fopen()`. -/
def outputOpen (calendar : Calendar) (globalNow : ℤ) (malloc opened : Bool) (s : Output) :
    Option Output :=
  if s.catastrophic then some s
  else
    let globalStart := calendar.start globalNow
    match newLogNumber globalStart s.logs.logs with
    | none => openLast opened s
    | some number =>
      if ¬ malloc then some { s with catastrophic := true }
      else
        openLast opened { s with
          logs := s.logs.insert globalNow
            ⟨globalStart, number, 0, logPath calendar globalStart number⟩ }

/-- `output_close` -/
def outputClose (globalNow : ℤ) (s : Output) : Output :=
  if s.catastrophic then s
  else if s.file = none then s
  else { s with file := none, logs := s.logs.cleanup globalNow }

/-- `output_vprint`: the value of `vfprintf()`, `none` if it is negative. What is printed counts for the
last log; without one, the program writes outside of `g_logs`. -/
def outputVprint (result : Option ℕ) (s : Output) : Option Output :=
  if s.catastrophic then some s
  else if s.file = none then some s
  else
    match result with
    | none => some { s with catastrophic := true }
    | some result =>
      s.logs.logs.getLast?.map fun last => { s with logs := { s.logs with
        logs := s.logs.logs.dropLast ++ [{ last with size := sizeAdd last.size result }]
        totalSize := sizeAdd s.logs.totalSize result } }

/-! ## Totals -/

/-- The sum of the sizes, as far as `unsigned long` holds it. -/
def Logs.TotalHolds (s : Logs) : Prop := s.totalSize = (s.logs.map Log.size).sum % 2 ^ 64

/-- Subtracting the sizes of the logs that go leaves the sizes of those that stay. -/
theorem foldl_sizeSub (gone : List Log) (rest : ℕ) :
    gone.foldl (fun total log => sizeSub total log.size)
      (((gone.map Log.size).sum + rest) % 2 ^ 64) = rest % 2 ^ 64 := by
  induction gone generalizing rest with
  | nil => rw [List.foldl_nil, List.map_nil, List.sum_nil, Nat.zero_add]
  | cons log gone ih =>
    have hsub : sizeSub ((((log :: gone).map Log.size).sum + rest) % 2 ^ 64) log.size
        = ((gone.map Log.size).sum + rest) % 2 ^ 64 := by
      rw [List.map_cons, List.sum_cons, sizeSub, sizeModulus]
      omega
    rw [List.foldl_cons, hsub, ih]

theorem Logs.TotalHolds.delete {s : Logs} (h : s.TotalHolds) (number : ℕ) :
    (s.delete number).TotalHolds := by
  have hsum : (s.logs.map Log.size).sum = ((s.logs.take number).map Log.size).sum +
      ((s.logs.drop number).map Log.size).sum := by
    rw [← List.sum_append, ← List.map_append, List.take_append_drop]
  unfold Logs.TotalHolds at h
  unfold Logs.TotalHolds Logs.delete
  dsimp only
  rw [h, hsum, foldl_sizeSub]

theorem Logs.TotalHolds.insert {s : Logs} (h : s.TotalHolds) (globalNow : ℤ) (log : Log) :
    (s.insert globalNow log).TotalHolds := by
  have hput : ∀ (u : Logs) (i : ℕ), u.TotalHolds → Logs.TotalHolds { u with
      logs := u.logs.take i ++ log :: u.logs.drop i
      totalSize := sizeAdd u.totalSize log.size } := by
    intro u i hu
    have hsum : (u.logs.map Log.size).sum = ((u.logs.take i).map Log.size).sum +
        ((u.logs.drop i).map Log.size).sum := by
      rw [← List.sum_append, ← List.map_append, List.take_append_drop]
    unfold Logs.TotalHolds at hu ⊢
    dsimp only
    rw [hu, List.map_append, List.map_cons, List.sum_append, List.sum_cons, hsum, sizeAdd,
      sizeModulus]
    omega
  unfold Logs.insert
  dsimp only
  by_cases hrefused : s.logs.length = maxTotalLogNumber ∧
      insertPlace log s.logs s.logs.length = 0
  · rw [if_pos hrefused]
    exact h
  rw [if_neg hrefused]
  split_ifs
  · exact (hput _ _ (h.delete 1)).delete _
  · exact (hput _ _ h).delete _

/-! ## The last log -/

/-- The last log stays the last when another is put before it, unless all logs go. -/
theorem Logs.insert_getLast? {s : Logs} {log : Log} (globalNow : ℤ)
    (hplace : insertPlace log s.logs s.logs.length < s.logs.length) :
    (s.insert globalNow log).logs = [] ∨
      (s.insert globalNow log).logs.getLast? = s.logs.getLast? := by
  obtain ⟨gone, -, hsplit⟩ := s.insert_split globalNow log
  by_cases hne : (s.insert globalNow log).logs = []
  · exact .inl hne
  · have hlast := congrArg List.getLast? hsplit
    have hdrop : s.logs.drop (insertPlace log s.logs s.logs.length) ≠ [] := by
      rw [Ne, List.drop_eq_nil_iff]
      omega
    rw [List.getLast?_append_of_ne_nil _ hne,
      List.getLast?_append_of_ne_nil _ (List.cons_ne_nil _ _), List.getLast?_cons_of_ne_nil hdrop,
      List.getLast?_drop, if_neg (by omega)] at hlast
    exact .inr hlast

/-- A log that is newer than the last is put before it. -/
theorem insertPlace_lt {log last : Log} {logs : List Log} (hlast : logs.getLast? = some last)
    (h : ¬ log.NotNewer last) : insertPlace log logs logs.length < logs.length := by
  have hle : ∀ i, insertPlace log logs i ≤ i := by
    intro i
    induction i with
    | zero => exact Nat.le_refl 0
    | succ i ih =>
      rw [insertPlace]
      split_ifs
      · exact Nat.le_succ_of_le ih
      · exact Nat.le_refl _
  obtain ⟨n, hn⟩ : ∃ n, logs.length = n + 1 :=
    Nat.exists_eq_succ_of_ne_zero fun hzero => by
      rw [List.eq_nil_of_length_eq_zero hzero] at hlast
      cases hlast
  have hget : logs.getD n .zero = last := by
    rw [List.getLast?_eq_getElem?, hn, Nat.add_sub_cancel] at hlast
    rw [List.getD_eq_getElem?_getD, hlast, Option.getD_some]
  rw [hn, insertPlace, hget, if_pos (Log.isNewer_iff.mpr h)]
  have := hle n
  omega

/-- The logs after an insertion are the old ones and the new one. -/
theorem Logs.mem_insert {s : Logs} {log other : Log} {globalNow : ℤ}
    (h : other ∈ (s.insert globalNow log).logs) : other = log ∨ other ∈ s.logs := by
  obtain ⟨gone, -, hsplit⟩ := s.insert_split globalNow log
  have hmem : other ∈ gone ++ (s.insert globalNow log).logs := List.mem_append_right _ h
  rw [hsplit] at hmem
  rcases List.mem_append.mp hmem with hfront | hback
  · exact .inr (List.mem_of_mem_take hfront)
  · rcases List.mem_cons.mp hback with rfl | hback
    · exact .inl rfl
    · exact .inr (List.mem_of_mem_drop hback)

/-- The first log that is inserted stays, unless it is too old. -/
theorem Logs.insert_first {s : Logs} {log : Log} {globalNow : ℤ} (hnil : s.logs = [])
    (htotal : s.TotalHolds) (hsize : log.size = 0) :
    (s.insert globalNow log).logs
      = if globalNow - log.globalStart > maxLogAge then [] else [log] := by
  obtain ⟨logs, total, unlinked⟩ := s
  obtain rfl : logs = [] := hnil
  obtain rfl : total = 0 := htotal
  have hadd : sizeAdd 0 log.size = 0 := by
    rw [hsize]
    rfl
  have hempty : ¬ (0 = maxTotalLogNumber) := by decide
  have hroom : ¬ (0 > maxTotalLogSize) := by decide
  simp only [Logs.insert, Logs.cleanup, Logs.delete, insertPlace, List.length_nil, hempty, false_and,
    if_false, List.take_nil, List.drop_nil, List.nil_append, hadd, cleanupCount, hroom, or_false]
  split_ifs <;> rfl

/-! ## What holds of the logs -/

/-- No log begins later than `bound`, and the last one is the first of its day. -/
structure Logs.Inv (bound : ℤ) (s : Logs) : Prop where
  past : ∀ log ∈ s.logs, log.globalStart ≤ bound
  number : ∀ last ∈ s.logs.getLast?, last.number = 0
  total : s.TotalHolds

theorem Logs.Inv.mono {bound bound' : ℤ} {s : Logs} (h : s.Inv bound) (hle : bound ≤ bound') :
    s.Inv bound' :=
  ⟨fun log hlog => Int.le_trans (h.past log hlog) hle, h.number, h.total⟩

theorem Logs.Inv.cleanup {bound : ℤ} {s : Logs} (h : s.Inv bound) (globalNow : ℤ) :
    (s.cleanup globalNow).Inv bound := by
  refine ⟨fun log hlog => h.past log (List.mem_of_mem_drop hlog), fun last hlast => ?_,
    h.total.delete _⟩
  have hdrop : (s.cleanup globalNow).logs
      = s.logs.drop (cleanupCount globalNow s.logs s.totalSize) := rfl
  rw [hdrop, List.getLast?_drop] at hlast
  split_ifs at hlast
  · cases hlast
  · exact h.number last hlast

/-- A log is inserted that is the first of its day, or is put before the last one. -/
theorem Logs.Inv.insert {bound : ℤ} {s : Logs} (h : s.Inv bound) (globalNow : ℤ) {log : Log}
    (hpast : log.globalStart ≤ bound)
    (hnumber : log.number = 0 ∨ insertPlace log s.logs s.logs.length < s.logs.length) :
    (s.insert globalNow log).Inv bound := by
  refine ⟨fun other hother => ?_, fun last hlast => ?_, h.total.insert globalNow log⟩
  · rcases Logs.mem_insert hother with rfl | hold
    · exact hpast
    · exact h.past other hold
  · by_cases hplace : insertPlace log s.logs s.logs.length < s.logs.length
    · rcases Logs.insert_getLast? globalNow hplace with hnil | hsame
      · rw [hnil] at hlast
        cases hlast
      · exact h.number last (hsame ▸ hlast)
    · -- the new log is the last one
      obtain ⟨gone, -, hsplit⟩ := s.insert_split globalNow log
      have hne : (s.insert globalNow log).logs ≠ [] := by
        intro hnil
        rw [hnil] at hlast
        cases hlast
      have hlast' := congrArg List.getLast? hsplit
      rw [List.getLast?_append_of_ne_nil _ hne, hlast, List.drop_eq_nil_of_le (Nat.not_lt.mp hplace),
        List.getLast?_concat] at hlast'
      rw [Option.some.inj hlast']
      exact hnumber.resolve_right hplace

/-- What `output_module_initialize` accepts is not of a later day, and is the first log of its day. -/
theorem parseLogName_spec {calendar : Calendar} {globalNow bound : ℤ} {name : List UInt8}
    {globalStart : ℤ} {number : ℕ}
    (h : parseLogName calendar globalNow bound name = some (globalStart, number)) :
    globalStart ≤ bound ∧ number = 0 := by
  unfold parseLogName at h
  obtain ⟨⟨year, p⟩, -, h⟩ := Option.bind_eq_some_iff.mp h
  obtain ⟨⟨month, p⟩, -, h⟩ := Option.bind_eq_some_iff.mp h
  obtain ⟨⟨day, p⟩, -, h⟩ := Option.bind_eq_some_iff.mp h
  dsimp only at h
  split_ifs at h with hfailed hlate hextension
  rw [not_not.mp hextension] at h
  obtain ⟨rfl, rfl⟩ := Prod.mk.inj (Option.some.inj h)
  exact ⟨Int.not_lt.mp hlate, rfl⟩

/-- The invariant of the output. -/
def Output.Inv (calendar : Calendar) (s : Output) : Prop := s.logs.Inv (calendar.start s.clock)

theorem readDirectory_inv (calendar : Calendar) (globalNow : ℤ) (directory : List DirectoryEntry)
    {s : Output} (h : s.logs.Inv (calendar.start globalNow)) (hclock : s.clock = globalNow) :
    (readDirectory calendar globalNow directory s).Inv calendar := by
  induction directory generalizing s with
  | nil => exact hclock ▸ h
  | cons entry directory ih =>
    rw [readDirectory]
    by_cases hregular : entry.regular = true
    swap
    · rw [if_pos hregular]
      exact ih h hclock
    rw [if_neg (not_not_intro hregular)]
    rcases hname : parseLogName calendar globalNow (calendar.start globalNow) entry.name with
      _ | ⟨globalStart, number⟩
    · exact ih h hclock
    obtain ⟨hpast, hnumber⟩ := parseLogName_spec hname
    dsimp only
    by_cases hmalloc : entry.malloc = true
    · rw [if_neg (not_not_intro hmalloc)]
      rcases entry.status with _ | size
      · exact ih h hclock
      · exact ih (h.insert globalNow hpast (.inl hnumber)) hclock
    · rw [if_pos hmalloc]
      exact hclock ▸ h

theorem outputModuleInitialize_inv (calendar : Calendar) (globalNow : ℤ)
    (directory : Option (List DirectoryEntry)) :
    (outputModuleInitialize calendar globalNow directory).Inv calendar := by
  have hempty : Logs.empty.Inv (calendar.start globalNow) := by
    refine ⟨?_, ?_, rfl⟩
    · intro log hlog
      cases hlog
    · intro last hlast
      cases hlast
  rcases directory with _ | directory
  · exact hempty
  · exact readDirectory_inv calendar globalNow directory hempty rfl

/-! ## Every order of calls -/

/-- A call of the module, with the answers of the outside. -/
inductive OutputEvent where
  | opens (globalNow : ℤ) (malloc opened : Bool)
  | prints (result : Option ℕ)
  | closes (globalNow : ℤ)

/-- One call that does not leave `g_logs`; the clock never goes back. -/
inductive OutputStep (calendar : Calendar) : Output → OutputEvent → Output → Prop where
  | opens {s t : Output} {globalNow : ℤ} {malloc opened : Bool} (clock : s.clock ≤ globalNow)
      (returns : outputOpen calendar globalNow malloc opened s = some t) :
      OutputStep calendar s (.opens globalNow malloc opened) { t with clock := globalNow }
  | prints {s t : Output} {result : Option ℕ} (returns : outputVprint result s = some t) :
      OutputStep calendar s (.prints result) t
  | closes {s : Output} {globalNow : ℤ} (clock : s.clock ≤ globalNow) :
      OutputStep calendar s (.closes globalNow) { outputClose globalNow s with clock := globalNow }

/-- The log that `output_open` creates. -/
def newLog (calendar : Calendar) (globalNow : ℤ) (number : ℕ) : Log :=
  ⟨calendar.start globalNow, number, 0, logPath calendar (calendar.start globalNow) number⟩

section

variable {calendar : Calendar} {s t : Output} {globalNow : ℤ}

/-- A log is created because there is none, or the last one is of another day, or it is too large; it is
put before the last one if that is not of a later day. -/
theorem newLogNumber_spec (h : s.logs.Inv (calendar.start globalNow)) {number : ℕ}
    (hnumber : newLogNumber (calendar.start globalNow) s.logs.logs = some number) :
    s.logs.logs = [] ∧ number = 0 ∨
      insertPlace (newLog calendar globalNow number) s.logs.logs s.logs.logs.length
          < s.logs.logs.length ∧
        ∀ last ∈ s.logs.logs.getLast?,
          ¬ (last.globalStart = calendar.start globalNow ∧ last.size ≤ maxLogSize) := by
  rw [newLogNumber] at hnumber
  rcases hlast : s.logs.logs.getLast? with _ | last
  · rw [hlast] at hnumber
    exact .inl ⟨List.getLast?_eq_none_iff.mp hlast, (Option.some.inj hnumber).symm⟩
  · rw [hlast] at hnumber
    dsimp only at hnumber
    have hpast := h.past last (List.mem_of_getLast? hlast)
    refine .inr ⟨insertPlace_lt hlast ?_, ?_⟩
    · split_ifs at hnumber with hday hsize
      · simp only [Log.NotNewer, newLog]
        omega
      · -- the last log is the first of its day, and the new one the second
        have hfirst := h.number last hlast
        rw [hfirst] at hnumber
        obtain rfl : 1 = number := Option.some.inj hnumber
        simp only [Log.NotNewer, newLog, not_not.mp hday, hfirst]
        omega
    · rintro other hother ⟨hday, hsize⟩
      obtain rfl : last = other := Option.some.inj hother
      rw [if_neg (not_not_intro hday), if_neg (Nat.not_lt.mpr hsize)] at hnumber
      cases hnumber

/-- The logs after one is created. -/
theorem newLog_inv (h : s.logs.Inv (calendar.start globalNow)) {number : ℕ}
    (hnumber : newLogNumber (calendar.start globalNow) s.logs.logs = some number) :
    (s.logs.insert globalNow (newLog calendar globalNow number)).Inv (calendar.start globalNow) :=
  h.insert globalNow (Int.le_refl _) ((newLogNumber_spec h hnumber).imp (·.2) (·.1))

/-- What `openLast` leaves of the logs. -/
theorem openLast_logs {opened : Bool} (h : openLast opened s = some t) : t.logs = s.logs := by
  obtain ⟨last, -, rfl⟩ := Option.map_eq_some_iff.mp h
  cases opened <;> rfl

theorem outputOpen_inv {malloc opened : Bool} (h : s.logs.Inv (calendar.start globalNow))
    (hopen : outputOpen calendar globalNow malloc opened s = some t) :
    t.logs.Inv (calendar.start globalNow) := by
  rw [outputOpen] at hopen
  by_cases hcatastrophic : s.catastrophic = true
  · rw [if_pos hcatastrophic] at hopen
    obtain rfl := Option.some.inj hopen
    exact h
  rw [if_neg hcatastrophic] at hopen
  dsimp only at hopen
  rcases hnumber : newLogNumber (calendar.start globalNow) s.logs.logs with _ | number
  · rw [hnumber] at hopen
    rw [openLast_logs hopen]
    exact h
  rw [hnumber] at hopen
  dsimp only at hopen
  by_cases hmalloc : malloc = true
  · rw [if_neg (not_not_intro hmalloc)] at hopen
    rw [openLast_logs hopen]
    exact newLog_inv h hnumber
  · rw [if_pos hmalloc] at hopen
    obtain rfl := Option.some.inj hopen
    exact h

/-- Printing makes the last log larger. -/
theorem outputVprint_inv {bound : ℤ} {result : Option ℕ} (h : s.logs.Inv bound)
    (hprint : outputVprint result s = some t) : t.logs.Inv bound ∧ t.clock = s.clock := by
  unfold outputVprint at hprint
  split_ifs at hprint
  · obtain rfl := Option.some.inj hprint
    exact ⟨h, rfl⟩
  · obtain rfl := Option.some.inj hprint
    exact ⟨h, rfl⟩
  rcases result with _ | result
  · obtain rfl := Option.some.inj hprint
    exact ⟨h, rfl⟩
  obtain ⟨last, hlast, rfl⟩ := Option.map_eq_some_iff.mp hprint
  obtain ⟨front, hfront⟩ : ∃ front, s.logs.logs = front ++ [last] :=
    ⟨_, (List.dropLast_append_getLast? last hlast).symm⟩
  have hpast := h.past
  have htotal := h.total
  rw [Logs.TotalHolds] at htotal
  rw [hfront] at hpast htotal
  refine ⟨⟨fun log hlog => ?_, fun other hother => ?_, ?_⟩, rfl⟩
  · dsimp only at hlog
    rw [hfront, List.dropLast_concat] at hlog
    rcases List.mem_append.mp hlog with hold | hnew
    · exact hpast log (List.mem_append_left _ hold)
    · rw [List.mem_singleton.mp hnew]
      exact hpast last (List.mem_append_right _ List.mem_cons_self)
  · dsimp only at hother
    rw [List.getLast?_concat] at hother
    rw [← Option.some.inj hother]
    exact h.number last hlast
  · unfold Logs.TotalHolds
    dsimp only
    rw [htotal, hfront, List.dropLast_concat]
    simp only [List.map_append, List.map_cons, List.map_nil, List.sum_append, List.sum_cons,
      List.sum_nil, sizeAdd, sizeModulus]
    omega

theorem OutputStep.inv (hstart : Monotone calendar.start) {event : OutputEvent}
    (hs : s.Inv calendar) (h : OutputStep calendar s event t) : t.Inv calendar := by
  cases h with
  | @opens t globalNow _ _ clock returns =>
    have hlogs : t.logs.Inv (calendar.start globalNow) :=
      outputOpen_inv (hs.mono (hstart clock)) returns
    exact hlogs
  | prints returns =>
    obtain ⟨hlogs, hclock⟩ := outputVprint_inv hs returns
    rw [Output.Inv, hclock]
    exact hlogs
  | @closes globalNow clock =>
    have hlater := hs.mono (hstart clock)
    have hclosed : (outputClose globalNow s).logs.Inv (calendar.start globalNow) := by
      rw [outputClose]
      split_ifs
      · exact hlater
      · exact hlater
      · exact hlater.cleanup globalNow
    exact hclosed

/-! ## The log of the current day -/

/-- `output_open` opens a log that exists, is of the current day, and was not too large. -/
def OpensToday (calendar : Calendar) (globalNow : ℤ) (s : Output) : Prop :=
  ∃ t log, outputOpen calendar globalNow true true s = some t ∧ t.file = some log ∧
    log ∈ t.logs.logs ∧ log.globalStart = calendar.start globalNow ∧ log.size ≤ maxLogSize

/-- There is no log, or the last one is the right one. -/
def LastIsToday (calendar : Calendar) (globalNow : ℤ) (s : Output) : Prop :=
  s.logs.logs = [] ∧ globalNow - calendar.start globalNow ≤ maxLogAge ∨
    ∃ last ∈ s.logs.logs.getLast?,
      last.globalStart = calendar.start globalNow ∧ last.size ≤ maxLogSize

/-- The last log is the one that is opened. -/
theorem openLast_spec {log : Log} (h : openLast true s = some t) (hfile : t.file = some log) :
    s.logs.logs.getLast? = some log := by
  obtain ⟨last, hlast, rfl⟩ := Option.map_eq_some_iff.mp h
  obtain rfl : last = log := Option.some.inj hfile
  exact hlast

theorem opensToday_iff (h : s.logs.Inv (calendar.start globalNow)) (hworks : s.catastrophic = false) :
    OpensToday calendar globalNow s ↔ LastIsToday calendar globalNow s := by
  have hopen : outputOpen calendar globalNow true true s
      = match newLogNumber (calendar.start globalNow) s.logs.logs with
        | none => openLast true s
        | some number => openLast true { s with
            logs := s.logs.insert globalNow (newLog calendar globalNow number) } := by
    rw [outputOpen, hworks]
    rfl
  unfold OpensToday LastIsToday
  rw [hopen]
  rcases hnumber : newLogNumber (calendar.start globalNow) s.logs.logs with _ | number
  · -- the last log is opened as it is
    rw [newLogNumber] at hnumber
    rcases hlast : s.logs.logs.getLast? with _ | last
    · rw [hlast] at hnumber
      cases hnumber
    rw [hlast] at hnumber
    dsimp only at hnumber
    split_ifs at hnumber with hday hsize
    have hright := And.intro (not_not.mp hday) (Nat.not_lt.mp hsize)
    refine iff_of_true ⟨{ s with file := some last }, last, ?_, rfl, List.mem_of_getLast? hlast, hright⟩
      (.inr ⟨last, rfl, hright⟩)
    dsimp only
    rw [openLast, hlast]
    rfl
  dsimp only
  rcases newLogNumber_spec h hnumber with ⟨hnil, rfl⟩ | ⟨hplace, hwrong⟩
  · -- the new log is the only one, if it is kept
    have hfirst : (s.logs.insert globalNow (newLog calendar globalNow 0)).logs
        = if globalNow - (newLog calendar globalNow 0).globalStart > maxLogAge then []
          else [newLog calendar globalNow 0] :=
      Logs.insert_first hnil h.total rfl
    rw [hnil]
    by_cases hold : globalNow - calendar.start globalNow > maxLogAge
    · rw [if_pos (show globalNow - (newLog calendar globalNow 0).globalStart > maxLogAge from hold)]
        at hfirst
      refine iff_of_false ?_ ?_
      · rintro ⟨t, log, hopened, -⟩
        rw [openLast, hfirst] at hopened
        cases hopened
      · rintro (⟨-, hyoung⟩ | ⟨last, hlast, -⟩)
        · omega
        · cases hlast
    · rw [if_neg (show ¬ globalNow - (newLog calendar globalNow 0).globalStart > maxLogAge from hold)]
        at hfirst
      refine iff_of_true ⟨{ s with
        logs := s.logs.insert globalNow (newLog calendar globalNow 0)
        file := some (newLog calendar globalNow 0) }, newLog calendar globalNow 0, ?_, rfl, ?_, rfl,
        Nat.zero_le _⟩ (.inl ⟨rfl, Int.not_lt.mp hold⟩)
      · rw [openLast, hfirst]
        rfl
      · dsimp only
        rw [hfirst]
        exact List.mem_singleton_self _
  · -- the last log is still the wrong one
    refine iff_of_false ?_ ?_
    · rintro ⟨t, log, hopened, hfile, -, hright⟩
      have hlast := openLast_spec hopened hfile
      dsimp only at hlast
      rcases Logs.insert_getLast? globalNow hplace with hnil | hsame
      · rw [hnil] at hlast
        cases hlast
      · exact hwrong log (hsame ▸ hlast) hright
    · rintro (⟨hnil, -⟩ | ⟨last, hlast, hright⟩)
      · rw [hnil] at hplace
        exact absurd hplace (Nat.not_lt_zero _)
      · exact hwrong last hlast hright

end

/-- In every run, whenever the module works, `output_open` opens the log of the current day if and only
if there is no log, or the last one is the right one. -/
theorem outputRun_opensToday_iff {calendar : Calendar} (hstart : Monotone calendar.start)
    {initialNow : ℤ} {directory : Option (List DirectoryEntry)} {events : List OutputEvent} {s : Output}
    (hrun : Runs (OutputStep calendar) (outputModuleInitialize calendar initialNow directory) events s)
    (hworks : s.catastrophic = false) {globalNow : ℤ} (hclock : s.clock ≤ globalNow) :
    OpensToday calendar globalNow s ↔ LastIsToday calendar globalNow s := by
  have hinv := hrun.invariant (outputModuleInitialize_inv calendar initialNow directory)
    fun _ _ _ hs h => h.inv hstart hs
  exact opensToday_iff (hinv.mono (hstart hclock)) hworks

/-- A calendar that knows the first nine days of 1970. -/
def januaryCalendar : Calendar where
  start time := 86400 * (time / 86400)
  date time := ascii "1970-01-0" ++ ascii (toString (time / 86400 + 1))
  toTime _ _ day _ := 86400 * (day - 1)

/-- The log of the first day, as it is created. -/
def firstLog : Log := newLog januaryCalendar 10 0

/-- The output after the log of the first day is opened. -/
def firstOutput : Output := ⟨⟨[firstLog], 0, []⟩, false, some firstLog, 10⟩

theorem firstOutput_run :
    Runs (OutputStep januaryCalendar) (outputModuleInitialize januaryCalendar 0 (some []))
      [.opens 10 true true, .closes 20] { firstOutput with file := none, clock := 20 } := by
  have hopen : OutputStep januaryCalendar (outputModuleInitialize januaryCalendar 0 (some []))
      (.opens 10 true true) firstOutput :=
    .opens (t := { firstOutput with clock := 0 }) (by decide) rfl
  have hclose : OutputStep januaryCalendar firstOutput (.closes 20)
      { firstOutput with file := none, clock := 20 } :=
    .closes (s := firstOutput) (by decide)
  exact .cons hopen (.cons hclose (.nil _))

/-- The log of the first day is opened, closed, and opened again on the same day. -/
theorem outputRun_opensToday_iff_same :
    OpensToday januaryCalendar 30 { firstOutput with file := none, clock := 20 } ↔
      LastIsToday januaryCalendar 30 { firstOutput with file := none, clock := 20 } := by
  have hmono : Monotone januaryCalendar.start := by
    intro a b hab
    show 86400 * (a / 86400) ≤ 86400 * (b / 86400)
    omega
  exact outputRun_opensToday_iff hmono firstOutput_run rfl (by decide)

/-- On the second day, the log of the first day is opened. -/
theorem outputRun_opensYesterday : ∃ s,
    Runs (OutputStep januaryCalendar) (outputModuleInitialize januaryCalendar 0 (some []))
      [.opens 10 true true, .closes 20] s ∧
    (∃ t, outputOpen januaryCalendar 86410 true true s = some t ∧ t.file = some firstLog) ∧
    ¬ OpensToday januaryCalendar 86410 s := by
  have hopen : outputOpen januaryCalendar 86410 true true { firstOutput with file := none, clock := 20 }
      = some ⟨⟨[newLog januaryCalendar 86410 0, firstLog], 0, []⟩, false, some firstLog, 20⟩ := rfl
  refine ⟨_, firstOutput_run, ⟨_, hopen, rfl⟩, ?_⟩
  rintro ⟨t, log, ht, hfile, -, hday, -⟩
  obtain rfl := Option.some.inj (hopen.symm.trans ht)
  obtain rfl : firstLog = log := Option.some.inj hfile
  have hzero : firstLog.globalStart = 0 := rfl
  rw [hzero] at hday
  revert hday
  decide

end Twinkleshine
