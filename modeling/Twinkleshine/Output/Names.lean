import Twinkleshine.Output.Open

/-!
# Names of log files

Reference: `output_open` and `output_module_initialize` in `source/output.c`.

The name of a log is its day and, for all but the first log of a day, its number:
`YYYY-MM-DD.log[.NNNN]`. When the program starts again it learns which logs there are from the names in
the directory. It compares what follows the day with `log`, the whole of it, and so takes no name for
that of a log which has a number.
-/

namespace Twinkleshine

/-! ## Printing names -/

/-- `%d` -/
def intText (n : ℤ) : List UInt8 := ascii (toString n)

/-- `%02d` -/
def twoDigits (n : ℤ) : List UInt8 :=
  if 0 ≤ n ∧ n < 10 then ascii "0" ++ intText n else intText n

/-- The day in a `struct tm`. -/
structure CalenderDay where
  /-- Years since 1900 -/
  tmYear : ℤ
  /-- Months since January -/
  tmMon : ℤ
  tmMday : ℤ
deriving DecidableEq, Repr

/-- `%d-%02d-%02d` -/
def CalenderDay.text (day : CalenderDay) : List UInt8 :=
  intText (day.tmYear + 1900) ++ ascii "-" ++ twoDigits (day.tmMon + 1) ++ ascii "-" ++
    twoDigits day.tmMday

/-- The name of the file of a log, as `output_open` prints it. -/
def logName (day : CalenderDay) (number : ℕ) : List UInt8 :=
  day.text ++ ascii ".log" ++ if number > 0 then ascii "." ++ ascii (uintText number) else []

/-- A calendar day with a year of four digits. -/
structure CalenderDay.FourDigits (day : CalenderDay) : Prop where
  year : 1000 ≤ day.tmYear + 1900 ∧ day.tmYear + 1900 ≤ 9999
  month : 1 ≤ day.tmMon + 1 ∧ day.tmMon + 1 ≤ 12
  day : 1 ≤ day.tmMday ∧ day.tmMday ≤ 31

/-- The path of a log ends with its name. -/
theorem logPath_eq {calendar : Calendar} {globalStart : ℤ} {day : CalenderDay}
    (hdate : calendar.date globalStart = day.text) (number : ℕ) :
    logPath calendar globalStart number = logDirectory ++ logName day number := by
  rw [logPath, logName, hdate]
  simp only [List.append_assoc]

/-! ## Numbers in names -/

/-- The bytes of a number are digits, and stand for it. -/
theorem intText_spec (n : ℕ) :
    intText n ≠ [] ∧ (intText n).all isDecimal = true ∧ digitsNumber (intText n) = n := by
  have htext : intText n = (Nat.toDigits 10 n).map fun c => c.toNat.toUInt8 := by
    show (toString n).toList.map _ = _
    rw [Nat.toString_eq_ofList_toDigits, String.toList_ofList]
  rw [htext]
  exact toDigits_bytes n

/-- So are those of a number with two digits. -/
theorem twoDigits_spec (n : ℕ) :
    twoDigits n ≠ [] ∧ (twoDigits n).all isDecimal = true ∧ digitsNumber (twoDigits n) = n := by
  obtain ⟨hne, hall, hnumber⟩ := intText_spec n
  rw [twoDigits]
  split_ifs
  · exact ⟨List.cons_ne_nil _ _, hall, hnumber⟩
  · exact ⟨hne, hall, hnumber⟩

/-- A number of a date is read up to its separator. -/
theorem readDatePart_digits {digits rest : List UInt8} {separator : UInt8} {n : ℕ}
    (hdigits : digits ≠ [] ∧ digits.all isDecimal = true ∧ digitsNumber digits = n)
    (hsmall : n < 2 ^ 31) (hseparator : isDecimal separator = false) :
    readDatePart separator (digits ++ separator :: rest) = some ((n : ℤ), rest) := by
  obtain ⟨hne, hall, rfl⟩ := hdigits
  have hread : strtol (digits ++ separator :: rest) = ((digitsNumber digits : ℤ), separator :: rest) := by
    refine strtol_digits hne hall (fun c hc => ?_) (by omega)
    obtain rfl : separator = c := Option.some.inj hc
    exact hseparator
  have hmoved : separator :: rest ≠ digits ++ separator :: rest := by
    intro h
    have hlength := congrArg List.length h
    rw [List.length_append] at hlength
    exact hne (List.eq_nil_of_length_eq_zero (by omega))
  rw [readDatePart, hread]
  dsimp only
  rw [if_neg (not_or_intro hmoved (not_not_intro rfl)), Int.bmod_eq_of_le (by omega) (by omega)]

/-! ## Reading names -/

/-- A name is taken for that of the log of this day and number. -/
def Recognized (calendar : Calendar) (globalNow : ℤ) (day : CalenderDay) (number : ℕ)
    (name : List UInt8) : Prop :=
  parseLogName calendar globalNow (calendar.start globalNow) name
    = some (calendar.toTime day.tmYear day.tmMon day.tmMday globalNow, number)

/-- The day of a name is read, whatever follows it. -/
theorem readDay {day : CalenderDay} (hday : day.FourDigits) (rest : List UInt8) :
    ∃ monthText dayText, readDatePart 45 (day.text ++ 46 :: rest)
        = some (day.tmYear + 1900, monthText) ∧
      readDatePart 45 monthText = some (day.tmMon + 1, dayText) ∧
      readDatePart 46 dayText = some (day.tmMday, rest) := by
  obtain ⟨⟨hyear, hyear'⟩, ⟨hmonth, hmonth'⟩, ⟨hmday, hmday'⟩⟩ := hday
  obtain ⟨year, hy⟩ := Int.eq_ofNat_of_zero_le (show 0 ≤ day.tmYear + 1900 by omega)
  obtain ⟨month, hm⟩ := Int.eq_ofNat_of_zero_le (show 0 ≤ day.tmMon + 1 by omega)
  obtain ⟨mday, hd⟩ := Int.eq_ofNat_of_zero_le (show 0 ≤ day.tmMday by omega)
  refine ⟨twoDigits month ++ 45 :: (twoDigits mday ++ 46 :: rest), twoDigits mday ++ 46 :: rest,
    ?_, ?_, ?_⟩
  · have htext : day.text ++ 46 :: rest
        = intText year ++ 45 :: (twoDigits month ++ 45 :: (twoDigits mday ++ 46 :: rest)) := by
      rw [CalenderDay.text, hy, hm, hd]
      simp only [List.append_assoc]
      rfl
    rw [htext, hy]
    exact readDatePart_digits (intText_spec year) (by omega) rfl
  · rw [hm]
    exact readDatePart_digits (twoDigits_spec month) (by omega) rfl
  · rw [hd]
    exact readDatePart_digits (twoDigits_spec mday) (by omega) rfl

/-- Of a name with a day nothing but the day and `log` is accepted. -/
theorem parseLogName_day {calendar : Calendar} {day : CalenderDay} (hday : day.FourDigits)
    (globalNow globalStart : ℤ) (rest : List UInt8) :
    parseLogName calendar globalNow globalStart (day.text ++ 46 :: rest)
      = if calendar.toTime day.tmYear day.tmMon day.tmMday globalNow = -1 then none
        else if calendar.toTime day.tmYear day.tmMon day.tmMday globalNow > globalStart then none
        else if rest ≠ ascii "log" then none
        else some (calendar.toTime day.tmYear day.tmMon day.tmMday globalNow, 0) := by
  obtain ⟨monthText, dayText, hyear, hmonth, hmday⟩ := readDay hday rest
  rw [parseLogName, hyear, Option.bind_some]
  dsimp only
  rw [hmonth, Option.bind_some]
  dsimp only
  rw [hmday, Option.bind_some]
  dsimp only
  rw [Int.add_sub_cancel, Int.add_sub_cancel]
  by_cases hrest : rest = ascii "log"
  · subst hrest
    rfl
  · rw [if_pos hrest, if_pos hrest]

/-- The file of a log is recognized by its name if and only if the log has no number and is of a day that
the C library knows and that is not in the future. -/
theorem logPath_recognized_iff {calendar : Calendar} {globalStart globalNow : ℤ} {day : CalenderDay}
    (hday : day.FourDigits) (hdate : calendar.date globalStart = day.text) (number : ℕ) :
    (∃ name, logPath calendar globalStart number = logDirectory ++ name ∧
        Recognized calendar globalNow day number name) ↔
      number = 0 ∧ calendar.toTime day.tmYear day.tmMon day.tmMday globalNow ≠ -1 ∧
        calendar.toTime day.tmYear day.tmMon day.tmMday globalNow ≤ calendar.start globalNow := by
  have hname : (∃ name, logPath calendar globalStart number = logDirectory ++ name ∧
      Recognized calendar globalNow day number name)
        ↔ Recognized calendar globalNow day number (logName day number) := by
    rw [logPath_eq hdate]
    refine ⟨?_, fun h => ⟨_, rfl, h⟩⟩
    rintro ⟨name, heq, h⟩
    rw [List.append_cancel_left heq]
    exact h
  have hrest : logName day number
      = day.text ++ 46 :: (ascii "log" ++
        if number > 0 then ascii "." ++ ascii (uintText number) else []) := by
    rw [logName, List.append_assoc]
    rfl
  rw [hname, Recognized, hrest]
  constructor
  · intro h
    obtain ⟨hpast, rfl⟩ := parseLogName_spec h
    refine ⟨rfl, fun hfailed => ?_, hpast⟩
    rw [parseLogName_day hday, if_pos hfailed] at h
    cases h
  · rintro ⟨rfl, hknown, hpast⟩
    rw [parseLogName_day hday, if_neg hknown, if_neg (Int.not_lt.mpr hpast)]
    exact if_neg (not_not_intro rfl)

/-- The twenty first of June 2026. -/
def someDay : CalenderDay := ⟨126, 5, 21⟩

/-- A calendar that knows this day only. -/
def someCalendar : Calendar := ⟨fun _ => 1782000000, fun _ => someDay.text, fun _ _ _ _ => 1782000000⟩

/-- The first log of a day is recognized. -/
theorem logPath_recognized_first : ∃ name,
    logPath someCalendar 1782000000 0 = logDirectory ++ name ∧
      Recognized someCalendar 1782036000 someDay 0 name :=
  (logPath_recognized_iff ⟨by decide, by decide, by decide⟩ rfl 0).mpr ⟨rfl, by decide, by decide⟩

/-- The second log of a day is not: its name is taken for that of no log. -/
theorem logPath_second :
    logPath someCalendar 1782000000 1 = logDirectory ++ ascii "2026-06-21.log.1" ∧
      parseLogName someCalendar 1782036000 1782000000 (ascii "2026-06-21.log.1") = none ∧
      ¬ Recognized someCalendar 1782036000 someDay 1 (ascii "2026-06-21.log.1") := by
  have hnone : parseLogName someCalendar 1782036000 1782000000 (ascii "2026-06-21.log.1") = none := by
    decide +kernel
  refine ⟨by decide +kernel, hnone, fun h => ?_⟩
  exact absurd (h.symm.trans hnone) (by simp)

end Twinkleshine
