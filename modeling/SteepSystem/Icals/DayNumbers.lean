import Mathlib.Tactic
import SteepSystem.Lib.Gregorian
import SteepSystem.Icals.Dates

/-!
The date arithmetic against the day numbers of the calendar: what each function adds to the
number of a day, and which of them always returns a date.
-/

namespace SteepSystem.Icals

open SteepSystem.Lib.Gregorian

/-- The number of the day of a time. -/
def IcalTime.number (itime : IcalTime) : ℤ :=
  Lib.Gregorian.number itime.year itime.month itime.day

/-- A date and time of the calendar, with the fields of the time in their ranges. -/
structure IcalTime.Valid (itime : IcalTime) : Prop where
  year_pos : 1 ≤ itime.year
  date : IsDate itime.year itime.month itime.day
  hour : 0 ≤ itime.hour ∧ itime.hour < 24
  minute : 0 ≤ itime.minute ∧ itime.minute < 60
  second : 0 ≤ itime.second ∧ itime.second < 60

instance (itime : IcalTime) : Decidable itime.Valid :=
  decidable_of_iff (1 ≤ itime.year ∧ IsDate itime.year itime.month itime.day ∧
      (0 ≤ itime.hour ∧ itime.hour < 24) ∧ (0 ≤ itime.minute ∧ itime.minute < 60) ∧
      0 ≤ itime.second ∧ itime.second < 60)
    ⟨fun ⟨h1, h2, h3, h4, h5⟩ => ⟨h1, h2, h3, h4, h5⟩,
      fun ⟨h1, h2, h3, h4, h5⟩ => ⟨h1, h2, h3, h4, h5⟩⟩

lemma checkLeapYear_iff (year : ℤ) : checkLeapYear year = true ↔ IsLeap year := by
  have h (n : ℤ) : 0 = year.tmod n ↔ n ∣ year := by
    rw [eq_comm, Int.dvd_iff_tmod_eq_zero]
  simp [checkLeapYear, IsLeap, h]

lemma yeardays_eq (year : ℤ) : yeardays year = yearLength year := by
  simp [yeardays, yearLength, checkLeapYear_iff]

lemma getMonthdays_eq {year month : ℤ} (h1 : 1 ≤ month) (h12 : month ≤ 12) :
    getMonthdays year month = monthLength year month := by
  have hl := checkLeapYear_iff year
  by_cases h : IsLeap year
  · rw [getMonthdays, hl.2 h]
    interval_cases month <;> simp [daysOfMonths, monthLength, h]
  · rw [getMonthdays, Bool.eq_false_iff.2 (hl.not.2 h)]
    interval_cases month <;> simp [daysOfMonths, monthLength, h]

lemma daysBefore_eq (year : ℤ) {k : ℕ} (hk : k ≤ 12) :
    (daysBefore (checkLeapYear year)).getD k 0 = monthStart year (k + 1) := by
  have hl := checkLeapYear_iff year
  have hn : ((k : ℤ) + 1).toNat - 1 = k := by omega
  by_cases h : IsLeap year
  · rw [hl.2 h, monthStart, hn]
    interval_cases k <;> simp [daysBefore, Finset.sum_range_succ, monthLength, h]
  · rw [Bool.eq_false_iff.2 (hl.not.2 h), monthStart, hn]
    interval_cases k <;> simp [daysBefore, Finset.sum_range_succ, monthLength, h]

lemma getDayofyear_eq {year month : ℤ} (day : ℤ) (h1 : 1 ≤ month) (h12 : month ≤ 12) :
    getDayofyear year month day = ordinal year month day := by
  have hm : (((month - 1).toNat : ℕ) : ℤ) + 1 = month := by omega
  rw [getDayofyear, daysBefore_eq year (by omega), hm, ordinal]

/-- The formula for the day of the week, from the start of this year or the next one on. In the
source's formula nothing is negative from the year 1 on. -/
lemma getDayofweek_start {year month day : ℤ} (hy : 1 ≤ year) (h1 : 1 ≤ month) (hd : -6 ≤ day) :
    getDayofweek year month day = (23 * month / 9 + day + (yearStart year +
      if month < 3 then 369 - 364 * year else yearLength year + 2 - 364 * year)) % 7 := by
  have hsucc := yearStart_succ year
  unfold getDayofweek
  split_ifs with hm
  all_goals
    simp only
    rw [Int.tdiv_eq_ediv_of_nonneg (by omega), Int.tdiv_eq_ediv_of_nonneg (by omega),
      Int.tdiv_eq_ediv_of_nonneg (by omega), Int.tdiv_eq_ediv_of_nonneg (by omega),
      Int.tmod_eq_emod_of_nonneg (by omega)]
    congr 1
  · rw [yearStart]
    omega
  · have hnext : yearStart year + (yearLength year + 2 - 364 * year) =
        yearStart (year + 1) + (2 - 364 * year) := by omega
    rw [hnext, yearStart, add_sub_cancel_right]
    omega

/-- From the year 1 on the day of the week follows the day number. -/
theorem getDayofweek_eq {year month day : ℤ} (hy : 1 ≤ year) (h1 : 1 ≤ month) (h12 : month ≤ 12)
    (hd : -6 ≤ day) :
    getDayofweek year month day = weekday (Lib.Gregorian.number year month day) := by
  have hl := checkLeapYear_iff year
  have hs : ordinal year month day = getDayofyear year month day :=
    (getDayofyear_eq day h1 h12).symm
  rw [Lib.Gregorian.number, hs, getDayofyear, weekday, getDayofweek_start hy h1 hd]
  generalize yearStart year = start
  by_cases h : IsLeap year
  · rw [hl.2 h, yearLength, if_pos h]
    clear h hl hs
    interval_cases month <;> simp [daysBefore] <;> omega
  · rw [Bool.eq_false_iff.2 (hl.not.2 h), yearLength, if_neg h]
    clear h hl hs
    interval_cases month <;> simp [daysBefore] <;> omega

/-- A day of the year becomes the date that has it; nothing else of the time changes. -/
lemma getItimeFromYearday_spec {year yearday : ℤ} (itime : IcalTime) (h1 : 1 ≤ yearday)
    (hle : yearday ≤ yearLength year) :
    ∃ month day, getItimeFromYearday year yearday itime =
        { itime with year := year, month := month, day := day } ∧
      IsDate year month day ∧ ordinal year month day = yearday := by
  have hdays {k : ℕ} (hk : k ≤ 12) := daysBefore_eq year hk
  unfold getItimeFromYearday
  rcases hfind : (List.range 12).find? fun k =>
    decide (yearday ≤ (daysBefore (checkLeapYear year)).getD (k + 1) 0) with _ | k
  · -- the year has no thirteenth month
    have := List.find?_eq_none.1 hfind 11 (by simp)
    rw [decide_eq_true_eq, hdays (by norm_num : 11 + 1 ≤ 12)] at this
    exact absurd (hle.trans_eq (monthStart_thirteen year).symm) this
  · obtain ⟨hk, hp, hbefore⟩ := List.find?_range_eq_some.1 hfind
    rw [List.mem_range] at hp
    simp only [decide_eq_true_eq, hdays (by omega : k + 1 ≤ 12)] at hk
    rw [Nat.cast_add, Nat.cast_one, monthStart_succ year (by omega)] at hk
    have hlow : monthStart year (k + 1) < yearday := by
      rcases k with _ | k
      · simpa using Int.lt_of_add_one_le h1
      · have := hbefore k (by omega)
        rw [hdays (by omega)] at this
        simpa using this
    refine ⟨k + 1, yearday - monthStart year (k + 1), ?_, ⟨by omega, by omega, by omega, by omega⟩,
      by unfold ordinal; omega⟩
    simp only [hfind, ← hdays (by omega : k ≤ 12)]

lemma addDayLoop_spec (year : ℤ) {yearday : ℤ} (h1 : 1 ≤ yearday) :
    year ≤ (addDayLoop year yearday).1 ∧ 1 ≤ (addDayLoop year yearday).2 ∧
    (addDayLoop year yearday).2 ≤ yearLength (addDayLoop year yearday).1 ∧
    yearStart (addDayLoop year yearday).1 + (addDayLoop year yearday).2 =
      yearStart year + yearday := by
  fun_induction addDayLoop year yearday with
  | case1 year yearday hgt ih =>
    rw [yeardays_eq] at hgt ih
    have hih := ih (by omega)
    rw [yearStart_succ] at hih
    rw [yeardays_eq]
    omega
  | case2 year yearday hle =>
    rw [yeardays_eq] at hle
    exact ⟨le_rfl, h1, not_lt.1 hle, rfl⟩

lemma subtractDayLoop_spec {year yearday days : ℤ} (h0 : 0 ≤ days)
    (hle : yearday ≤ yearLength year) :
    1 ≤ (subtractDayLoop year yearday days).2 ∧
    (subtractDayLoop year yearday days).2 ≤ yearLength (subtractDayLoop year yearday days).1 ∧
    yearStart (subtractDayLoop year yearday days).1 + (subtractDayLoop year yearday days).2 =
      yearStart year + yearday - days := by
  fun_induction subtractDayLoop year yearday days with
  | case1 year yearday days hlt ih =>
    have hsucc := yearStart_succ (year - 1)
    rw [sub_add_cancel] at hsucc
    rw [yeardays_eq] at ih ⊢
    have hih := ih (by omega) le_rfl
    omega
  | case2 year yearday days hlt =>
    exact ⟨by omega, (sub_le_self _ h0).trans hle, (add_sub_assoc _ _ _).symm⟩

variable {itime : IcalTime}

/-- Subtracting days takes them off the number of the day. -/
lemma subtractDay_spec {days : ℤ} (h : IsDate itime.year itime.month itime.day) (hn : 0 ≤ days) :
    ∃ year month day, subtractDay itime days =
        { itime with year := year, month := month, day := day } ∧
      IsDate year month day ∧ Lib.Gregorian.number year month day = itime.number - days := by
  obtain ⟨h1, hle, hsum⟩ := subtractDayLoop_spec hn
    (show getDayofyear itime.year itime.month itime.day ≤ yearLength itime.year by
      rw [getDayofyear_eq _ h.month_pos h.month_le]; exact h.ordinal_le)
  obtain ⟨month, day, heq, hdate, hord⟩ := getItimeFromYearday_spec itime h1 hle
  refine ⟨_, month, day, heq, hdate, ?_⟩
  rw [Lib.Gregorian.number, hord, hsum, getDayofyear_eq _ h.month_pos h.month_le,
    IcalTime.number, Lib.Gregorian.number]

end SteepSystem.Icals
