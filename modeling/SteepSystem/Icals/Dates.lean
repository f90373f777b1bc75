import Mathlib.Tactic
import SteepSystem.Lib.Gregorian

/-!
The arithmetic of dates and times in the calendar library (`ical.c`): the day of the week and of
the year, and moving a time by years, months, days, hours, minutes and seconds. The integers of
the source are unbounded here; its divisions round towards zero.
-/

namespace SteepSystem.Icals

open SteepSystem.Lib.Gregorian

/-- `ICAL_TIME`. -/
@[ext] structure IcalTime where
  year : ℤ
  month : ℤ
  day : ℤ
  hour : ℤ
  minute : ℤ
  second : ℤ
  leapSecond : ℤ
deriving DecidableEq, Repr

/-- `ical_cmp_time` -/
def cmpTime (itime1 itime2 : IcalTime) : ℤ :=
  if itime1.year > itime2.year then 1
  else if itime1.year < itime2.year then -1
  else if itime1.month > itime2.month then 1
  else if itime1.month < itime2.month then -1
  else if itime1.day > itime2.day then 1
  else if itime1.day < itime2.day then -1
  else if itime1.hour > itime2.hour then 1
  else if itime1.hour < itime2.hour then -1
  else if itime1.minute > itime2.minute then 1
  else if itime1.minute < itime2.minute then -1
  else if itime1.second > itime2.second then 1
  else if itime1.second < itime2.second then -1
  else if itime1.leapSecond > 59 ∧ itime2.leapSecond ≤ 59 then 1
  else 0

/-- `ical_check_leap_year` -/
def checkLeapYear (year : ℤ) : Bool :=
  (0 = year.tmod 4 ∧ 0 ≠ year.tmod 100) ∨ 0 = year.tmod 400

/-- `ical_get_dayofweek`; the addition to the day is the first operand of a comma. -/
def getDayofweek (year month day : ℤ) : ℤ :=
  let day := day + (if month < 3 then year else year - 2)
  let year := if month < 3 then year - 1 else year
  ((23 * month).tdiv 9 + day + 4 + year.tdiv 4 - year.tdiv 100 + year.tdiv 400).tmod 7

/-- The days before each month, and before the year's end. -/
def daysBefore (leap : Bool) : List ℤ :=
  if leap then [0, 31, 60, 91, 121, 152, 182, 213, 244, 274, 305, 335, 366]
  else [0, 31, 59, 90, 120, 151, 181, 212, 243, 273, 304, 334, 365]

def daysOfMonths (leap : Bool) : List ℤ :=
  if leap then [31, 29, 31, 30, 31, 30, 31, 31, 30, 31, 30, 31]
  else [31, 28, 31, 30, 31, 30, 31, 31, 30, 31, 30, 31]

/-- `ical_get_dayofyear` -/
def getDayofyear (year month day : ℤ) : ℤ :=
  (daysBefore (checkLeapYear year)).getD (month - 1).toNat 0 + day

/-- `ical_get_monthdays` -/
def getMonthdays (year month : ℤ) : ℤ :=
  (daysOfMonths (checkLeapYear year)).getD (month - 1).toNat 0

/-- The days of a year as the loops over years count them. -/
def yeardays (year : ℤ) : ℤ := if checkLeapYear year then 366 else 365

/-- `ical_get_itime_from_yearday`: the first month that the day does not exceed; the month is
left at 13 when there is none. -/
def getItimeFromYearday (year yearday : ℤ) (itime : IcalTime) : IcalTime :=
  let days := daysBefore (checkLeapYear year)
  match (List.range 12).find? fun k => yearday ≤ days.getD (k + 1) 0 with
  | some k => { itime with year := year, month := k + 1, day := yearday - days.getD k 0 }
  | none => { itime with year := year, month := 13 }

/-- `ical_add_year` -/
def addYear (itime : IcalTime) (years : ℤ) : IcalTime :=
  let itime := { itime with year := itime.year + years }
  if 0 = years.tmod 4 then itime
  else if 2 = itime.month ∧ 29 = itime.day then { itime with day := 28 }
  else itime

/-- The day is brought back into its month. -/
def clampDay (itime : IcalTime) : IcalTime :=
  let monthdays := getMonthdays itime.year itime.month
  if itime.day > monthdays then { itime with day := monthdays } else itime

/-- `ical_add_month` -/
def addMonth (itime : IcalTime) (months : ℤ) : IcalTime :=
  let year := itime.year + months.tdiv 12
  let month := itime.month + months.tmod 12
  clampDay (if month > 12 then { itime with year := year + 1, month := month - 12 }
    else { itime with year := year, month := month })

/-- The loop of `ical_add_day`: whole years are taken off the day of the year. -/
def addDayLoop (year yearday : ℤ) : ℤ × ℤ :=
  if yearday > yeardays year then addDayLoop (year + 1) (yearday - yeardays year)
  else (year, yearday)
termination_by yearday.toNat
decreasing_by
  unfold yeardays at *
  split_ifs at * <;> omega

/-- `ical_add_day` -/
def addDay (itime : IcalTime) (days : ℤ) : IcalTime :=
  let (year, yearday) :=
    addDayLoop itime.year (getDayofyear itime.year itime.month itime.day + days)
  getItimeFromYearday year yearday itime

/-- The loop of `ical_subtract_day`, to the year and the day of it. -/
def subtractDayLoop (year yearday days : ℤ) : ℤ × ℤ :=
  if yearday ≤ days then subtractDayLoop (year - 1) (yeardays (year - 1)) (days - yearday)
  else (year, yearday - days)
termination_by (days - yearday + 1).toNat
decreasing_by
  unfold yeardays
  split_ifs <;> omega

/-- `ical_subtract_day` -/
def subtractDay (itime : IcalTime) (days : ℤ) : IcalTime :=
  let (year, yearday) :=
    subtractDayLoop itime.year (getDayofyear itime.year itime.month itime.day) days
  getItimeFromYearday year yearday itime

/-- The first loop of `ical_delta_day`, to the second date and the days passed. The comparison
has put the dates in order, so the years differ as long as the second one is less. -/
def deltaYears (year1 year2 month2 day2 delta : ℤ) : ℤ × ℤ × ℤ × ℤ :=
  if year2 < year1 then
    deltaYears year1 (year2 + 1) 1 1 (delta + (yeardays year2 + 1 - getDayofyear year2 month2 day2))
  else (year2, month2, day2, delta)
termination_by (year1 - year2).toNat
decreasing_by omega

/-- The second loop of `ical_delta_day`. -/
def deltaMonths (month1 year2 month2 day2 delta : ℤ) : ℤ × ℤ :=
  if month2 < month1 then
    deltaMonths month1 year2 (month2 + 1) 1 (delta + (getMonthdays year2 month2 + 1 - day2))
  else (day2, delta)
termination_by (month1 - month2).toNat
decreasing_by omega

lemma cmpField_neg_iff (a b rest : ℤ) :
    (if a > b then 1 else if a < b then -1 else rest) < 0 ↔ a < b ∨ a = b ∧ rest < 0 := by
  by_cases h1 : a > b
  · rw [if_pos h1]
    omega
  · by_cases h2 : a < b
    · rw [if_neg h1, if_pos h2]
      omega
    · rw [if_neg h1, if_neg h2]
      omega

/-- A time is before another one in the order of its fields. -/
lemma cmpTime_neg_iff {itime1 itime2 : IcalTime} : cmpTime itime1 itime2 < 0 ↔
    itime1.year < itime2.year ∨ itime1.year = itime2.year ∧
    (itime1.month < itime2.month ∨ itime1.month = itime2.month ∧
    (itime1.day < itime2.day ∨ itime1.day = itime2.day ∧
    (itime1.hour < itime2.hour ∨ itime1.hour = itime2.hour ∧
    (itime1.minute < itime2.minute ∨ itime1.minute = itime2.minute ∧
      itime1.second < itime2.second)))) := by
  have hlast (p : Prop) [Decidable p] : ¬ (if p then (1 : ℤ) else 0) < 0 := by
    split_ifs <;> norm_num
  simp only [cmpTime, cmpField_neg_iff, hlast, and_false, or_false]

lemma cmpTime_swap {itime1 itime2 : IcalTime} (h : cmpTime itime1 itime2 < 0) :
    ¬ cmpTime itime2 itime1 < 0 := by
  rw [cmpTime_neg_iff] at *
  omega

/-- `ical_delta_day` -/
def deltaDay (itime1 itime2 : IcalTime) : ℤ :=
  if cmpTime itime1 itime2 < 0 then deltaDay itime2 itime1
  else
    let (year2, month2, day2, delta) :=
      deltaYears itime1.year itime2.year itime2.month itime2.day 0
    let (day2, delta) := deltaMonths itime1.month year2 month2 day2 delta
    delta + (itime1.day - day2)
termination_by if cmpTime itime1 itime2 < 0 then 1 else 0
decreasing_by simp [*, cmpTime_swap]

/-- `ical_add_hour` -/
def addHour (itime : IcalTime) (hours : ℤ) : IcalTime :=
  let itime := if hours > 23 then addDay itime (hours.tdiv 24) else itime
  let itime := { itime with hour := itime.hour + hours.tmod 24 }
  if itime.hour > 23 then
    let itime := addDay itime 1
    { itime with hour := itime.hour - 24 }
  else itime

/-- `ical_add_minute` -/
def addMinute (itime : IcalTime) (minutes : ℤ) : IcalTime :=
  let itime := if minutes > 59 then addHour itime (minutes.tdiv 60) else itime
  let itime := { itime with minute := itime.minute + minutes.tmod 60 }
  if itime.minute > 59 then
    let itime := addHour itime 1
    { itime with minute := itime.minute - 60 }
  else itime

/-- `ical_add_second` -/
def addSecond (itime : IcalTime) (seconds : ℤ) : IcalTime :=
  let itime := if seconds > 59 then addMinute itime (seconds.tdiv 60) else itime
  let itime := { itime with second := itime.second + seconds.tmod 60 }
  if itime.second > 59 then
    let itime := addMinute itime 1
    { itime with second := itime.second - 60 }
  else itime

end SteepSystem.Icals
