import Mathlib.Tactic
import SteepSystem.Lib.Gregorian
import SteepSystem.Icals.Dates
import SteepSystem.Icals.DayNumbers

/-!
The weeks of a year and of a month in the calendar library (`ical.c`). The test for a year of 53
weeks looks at the wrong days of the week, and takes every fourth century for such a year.
-/

namespace SteepSystem.Icals

open SteepSystem.Lib.Gregorian

/-- `ical_get_monthweekorder` -/
def getMonthweekorder (day : ℤ) : ℤ := (day - 1).tdiv 7 + 1

/-- `ical_get_negative_monthweekorder` -/
def getNegativeMonthweekorder (year month day : ℤ) : ℤ :=
  (day - getMonthdays year month).tdiv 7 - 1

/-- `ical_get_dayofmonth` -/
def getDayofmonth (year month order dayofweek : ℤ) : ℤ :=
  if order > 0 then
    let tmpDow := getDayofweek year month 1
    if dayofweek ≥ tmpDow then 7 * (order - 1) + 1 + dayofweek - tmpDow
    else 7 * order + 1 + dayofweek - tmpDow
  else
    let monthdays := getMonthdays year month
    let tmpDow := getDayofweek year month monthdays
    if tmpDow ≥ dayofweek then monthdays - tmpDow + 7 * (order + 1) + dayofweek
    else monthdays - tmpDow + 7 * order + dayofweek

/-- `ical_get_yearweeks`; the last disjunct stands outside the conjunction before it. -/
def getYearweeks (year : ℤ) : ℤ :=
  let dayofweek := getDayofweek year 1 1
  if 5 = dayofweek ∨ (4 = dayofweek ∧ (0 = year.tmod 4 ∧ 0 ≠ year.tmod 100) ∨ 0 = year.tmod 400)
  then 53 else 52

/-- The day within its week, from 1 on, as the functions below compute it. -/
def dayInWeek (year month day weekstart : ℤ) : ℤ :=
  let dayofweek := getDayofweek year month day - weekstart + 1
  if dayofweek ≤ 0 then dayofweek + 7 else dayofweek

/-- The number of the week before the years on either side are considered. -/
def weeknumber (year month day weekstart : ℤ) : ℤ :=
  (getDayofyear year month day - dayInWeek year month day weekstart + 10).tdiv 7

/-- `ical_get_weekofyear`, with `*pb_yeargap`. -/
def getWeekofyear (year month day weekstart : ℤ) : ℤ × Bool :=
  if weeknumber year month day weekstart < 1 then (getYearweeks (year - 1), true)
  else if weeknumber year month day weekstart > getYearweeks year then (1, true)
  else (weeknumber year month day weekstart, false)

/-- `ical_get_negative_weekofyear`, with `*pb_yeargap`. -/
def getNegativeWeekofyear (year month day weekstart : ℤ) : ℤ × Bool :=
  let yearweeks := getYearweeks year
  if weeknumber year month day weekstart < 1 then (-1, true)
  else if weeknumber year month day weekstart > getYearweeks year then
    (-1 * getYearweeks (year + 1), true)
  else (weeknumber year month day weekstart - yearweeks - 1, false)

section Months

variable {year month day : ℤ}

/-- Days of one month follow the days of the week. -/
lemma getDayofweek_add (day : ℤ) {day' : ℤ} (hy : 1 ≤ year) (h1 : 1 ≤ month) (h12 : month ≤ 12)
    (hd : -6 ≤ day) (hd' : -6 ≤ day') : getDayofweek year month day' =
      (getDayofweek year month day + (day' - day)) % 7 := by
  rw [getDayofweek_eq hy h1 h12 hd, getDayofweek_eq hy h1 h12 hd']
  unfold weekday Lib.Gregorian.number ordinal
  omega

lemma getDayofweek_range (day : ℤ) (hy : 1 ≤ year) (h1 : 1 ≤ month) (h12 : month ≤ 12)
    (hd : -6 ≤ day) :
    0 ≤ getDayofweek year month day ∧ getDayofweek year month day < 7 := by
  rw [getDayofweek_eq hy h1 h12 hd]
  unfold weekday
  omega

/-- The weekday and the order of the day computed for them, counted from the start. -/
lemma getDayofmonth_pos {order dayofweek : ℤ} (hy : 1 ≤ year) (h1 : 1 ≤ month) (h12 : month ≤ 12)
    (ho : 0 < order) (hw : 0 ≤ dayofweek ∧ dayofweek < 7) :
    getMonthweekorder (getDayofmonth year month order dayofweek) = order ∧
      getDayofweek year month (getDayofmonth year month order dayofweek) = dayofweek := by
  have hfirst := getDayofweek_range 1 hy h1 h12 (by norm_num)
  have hpos : 1 ≤ getDayofmonth year month order dayofweek := by
    unfold getDayofmonth
    rw [if_pos ho]
    dsimp only
    split_ifs <;> omega
  rw [getMonthweekorder, Int.tdiv_eq_ediv_of_nonneg (by omega),
    getDayofweek_add 1 hy h1 h12 (by norm_num) (by omega)]
  unfold getDayofmonth
  rw [if_pos ho]
  dsimp only
  split_ifs <;> omega

lemma getNegativeMonthweekorder_eq (h : day ≤ getMonthdays year month) :
    getNegativeMonthweekorder year month day = -((getMonthdays year month - day) / 7) - 1 := by
  rw [getNegativeMonthweekorder, ← neg_sub (getMonthdays year month), Int.neg_tdiv,
    Int.tdiv_eq_ediv_of_nonneg (by omega)]

/-- The weekday and the order of the day computed for them, counted from the end. -/
lemma getDayofmonth_neg {order dayofweek : ℤ} (hy : 1 ≤ year) (h1 : 1 ≤ month) (h12 : month ≤ 12)
    (ho : order < 0) (hw : 0 ≤ dayofweek ∧ dayofweek < 7) :
    getNegativeMonthweekorder year month (getDayofmonth year month order dayofweek) = order ∧
      (-6 ≤ getDayofmonth year month order dayofweek →
        getDayofweek year month (getDayofmonth year month order dayofweek) = dayofweek) := by
  have hlen := (monthLength_bounds year month).1
  rw [← getMonthdays_eq h1 h12] at hlen
  have hlast := getDayofweek_range (getMonthdays year month) hy h1 h12 (by omega)
  have hle : getDayofmonth year month order dayofweek ≤ getMonthdays year month := by
    unfold getDayofmonth
    rw [if_neg (by omega)]
    dsimp only
    split_ifs <;> omega
  refine ⟨?_, fun hd => ?_⟩
  · rw [getNegativeMonthweekorder_eq hle]
    unfold getDayofmonth
    rw [if_neg (by omega)]
    dsimp only
    split_ifs <;> omega
  · rw [getDayofweek_add (getMonthdays year month) hy h1 h12 (by omega) hd]
    unfold getDayofmonth
    rw [if_neg (by omega)]
    dsimp only
    split_ifs <;> omega

/-- A day is the one computed for its own weekday and order, from the start and from the end. -/
lemma getDayofmonth_self (hy : 1 ≤ year) (h : IsDate year month day) :
    getDayofmonth year month (getMonthweekorder day) (getDayofweek year month day) = day ∧
      getDayofmonth year month (getNegativeMonthweekorder year month day)
        (getDayofweek year month day) = day := by
  obtain ⟨h1, h12, hd, hle⟩ := h
  rw [← getMonthdays_eq h1 h12] at hle
  constructor
  · rw [getMonthweekorder, getDayofweek_add 1 hy h1 h12 (by norm_num) (by omega),
      Int.tdiv_eq_ediv_of_nonneg (by omega)]
    have hfirst := getDayofweek_range 1 hy h1 h12 (by norm_num)
    unfold getDayofmonth
    rw [if_pos (by omega)]
    dsimp only
    split_ifs <;> omega
  · rw [getDayofweek_add (getMonthdays year month) hy h1 h12 (by omega) (by omega)]
    have hlast := getDayofweek_range (getMonthdays year month) hy h1 h12 (by omega)
    rw [getNegativeMonthweekorder_eq hle]
    unfold getDayofmonth
    rw [if_neg (by omega)]
    dsimp only
    split_ifs <;> omega

end Months

section Years

variable {weekstart year month day : ℤ}

/-- The years that `ical_get_yearweeks` gives 53 weeks: those that begin on a Friday, those that
begin on a Thursday and are leap years other than a fourth century, and the fourth centuries. -/
def TestedLong (year : ℤ) : Prop :=
  weekday (yearStart year + 1) = 5 ∨
    (weekday (yearStart year + 1) = 4 ∧ 4 ∣ year ∧ ¬ 100 ∣ year) ∨ 400 ∣ year

instance : DecidablePred TestedLong := fun _ => inferInstanceAs (Decidable (_ ∨ _))

lemma getYearweeks_eq (hy : 0 ≤ year) : getYearweeks year = if TestedLong year then 53 else 52 := by
  rcases hy.eq_or_lt with rfl | hpos
  · decide +kernel
  · have hfirst : getDayofweek year 1 1 = weekday (yearStart year + 1) := by
      rw [getDayofweek_eq hpos le_rfl (by norm_num) (by norm_num), Lib.Gregorian.number, ordinal,
        monthStart_one, zero_add]
    have hdvd (n : ℤ) : 0 = year.tmod n ↔ n ∣ year := by rw [eq_comm, Int.dvd_iff_tmod_eq_zero]
    have hcond : (5 = weekday (yearStart year + 1) ∨
        (4 = weekday (yearStart year + 1) ∧ (0 = year.tmod 4 ∧ 0 ≠ year.tmod 100) ∨
          0 = year.tmod 400)) ↔ TestedLong year := by
      rw [ne_eq, hdvd, hdvd, hdvd, TestedLong, eq_comm, @eq_comm _ 4]
    rw [getYearweeks, hfirst]
    exact if_congr hcond rfl rfl

/-- The test for a year of 53 weeks is right about the year. -/
def TestRight (weekstart year : ℤ) : Prop := TestedLong year ↔ weeks weekstart year = 53

lemma getYearweeks_eq_weeks_iff (weekstart : ℤ) (hy : 0 ≤ year) :
    getYearweeks year = weeks weekstart year ↔ TestRight weekstart year := by
  have hweeks := (firstWeek_succ weekstart year).2
  rw [getYearweeks_eq hy, TestRight]
  split_ifs with h
  · simp only [h, true_iff]
    exact eq_comm
  · simp only [h, false_iff]
    omega

lemma getYearweeks_range (hy : 0 ≤ year) : 52 ≤ getYearweeks year ∧ getYearweeks year ≤ 53 := by
  rw [getYearweeks_eq hy]
  split_ifs <;> norm_num

/-- Before the years on either side are considered, the week is counted from the first week of
the year of the date. -/
lemma weeknumber_eq (hy : 1 ≤ year) (h : IsDate year month day)
    (hws : 0 ≤ weekstart ∧ weekstart ≤ 6) : weeknumber year month day weekstart =
      (Lib.Gregorian.number year month day - firstWeek weekstart year) / 7 + 1 := by
  have hord := h.ordinal_pos
  have hfirst := firstWeek_bounds weekstart year
  have hmod := firstWeek_emod weekstart year
  have hin : dayInWeek year month day weekstart =
      (Lib.Gregorian.number year month day - weekstart) % 7 + 1 := by
    rw [dayInWeek, getDayofweek_eq hy h.month_pos h.month_le (by linarith [h.day_pos]), weekday]
    split_ifs <;> omega
  rw [weeknumber, hin, getDayofyear_eq day h.month_pos h.month_le,
    Int.tdiv_eq_ediv_of_nonneg (by omega), Lib.Gregorian.number]
  omega

/-- A date lies less than a week before the first week of its year, and not after the first week
of the next one. -/
lemma number_bounds (weekstart : ℤ) (h : IsDate year month day) :
    firstWeek weekstart year - 3 ≤ Lib.Gregorian.number year month day ∧
      Lib.Gregorian.number year month day < firstWeek weekstart (year + 1) + 3 := by
  have hpos := h.ordinal_pos
  have hle := h.ordinal_le
  have h0 := firstWeek_bounds weekstart year
  have h1 := firstWeek_bounds weekstart (year + 1)
  rw [yearStart_succ] at h1
  unfold Lib.Gregorian.number
  omega

/-- A date before the first week of its year is in the last week of the year before. -/
lemma before_firstWeek (hy : 1 ≤ year) (h : IsDate year month day)
    (hws : 0 ≤ weekstart ∧ weekstart ≤ 6)
    (hlt : Lib.Gregorian.number year month day < firstWeek weekstart year) :
    weekYear weekstart year (Lib.Gregorian.number year month day) = year - 1 ∧
      week weekstart year (Lib.Gregorian.number year month day) = weeks weekstart (year - 1) ∧
      weeknumber year month day weekstart = 0 := by
  have hbounds := number_bounds weekstart h
  have hlast := (firstWeek_succ weekstart (year - 1)).1
  rw [sub_add_cancel] at hlast
  have hyear : weekYear weekstart year (Lib.Gregorian.number year month day) = year - 1 :=
    if_pos hlt
  rw [week, hyear, weeknumber_eq hy h hws]
  exact ⟨rfl, by omega, by omega⟩

lemma within_weeks (hy : 1 ≤ year) (h : IsDate year month day)
    (hws : 0 ≤ weekstart ∧ weekstart ≤ 6)
    (hle : firstWeek weekstart year ≤ Lib.Gregorian.number year month day)
    (hlt : Lib.Gregorian.number year month day < firstWeek weekstart (year + 1)) :
    weekYear weekstart year (Lib.Gregorian.number year month day) = year ∧
      week weekstart year (Lib.Gregorian.number year month day) =
        weeknumber year month day weekstart ∧
      1 ≤ weeknumber year month day weekstart ∧
      weeknumber year month day weekstart ≤ weeks weekstart year := by
  have hnext := (firstWeek_succ weekstart year).1
  have hyear : weekYear weekstart year (Lib.Gregorian.number year month day) = year := by
    rw [weekYear, if_neg (by omega), if_neg (by omega)]
  rw [week, hyear, weeknumber_eq hy h hws]
  exact ⟨rfl, rfl, by omega, by omega⟩

/-- A date from the first week of the next year on comes after 52 weeks. -/
lemma after_weeks (hy : 1 ≤ year) (h : IsDate year month day)
    (hws : 0 ≤ weekstart ∧ weekstart ≤ 6)
    (hle : firstWeek weekstart (year + 1) ≤ Lib.Gregorian.number year month day) :
    weekYear weekstart year (Lib.Gregorian.number year month day) = year + 1 ∧
      week weekstart year (Lib.Gregorian.number year month day) = 1 ∧
      weeknumber year month day weekstart = 53 ∧ weeks weekstart year = 52 := by
  have hbounds := number_bounds weekstart h
  have hnext := firstWeek_succ weekstart year
  have hfirst := firstWeek_bounds weekstart year
  have hord := h.ordinal_le
  have hlen := yearLength_eq year
  have hyear : weekYear weekstart year (Lib.Gregorian.number year month day) = year + 1 := by
    rw [weekYear, if_neg (by omega), if_pos hle]
  have h52 : weeks weekstart year = 52 := by
    unfold Lib.Gregorian.number at *
    omega
  rw [week, hyear, weeknumber_eq hy h hws]
  exact ⟨rfl, by omega, by omega, h52⟩

/-- What the functions on weeks owe for a date: the week of the calendar with the year it falls
in, its count from that year's end, and in the month the weekday and the order of a day. -/
structure WeekNumbering (weekstart year month day : ℤ) : Prop where
  week_eq : getWeekofyear year month day weekstart =
    (week weekstart year (Lib.Gregorian.number year month day),
      decide (weekYear weekstart year (Lib.Gregorian.number year month day) ≠ year))
  week_le : 1 ≤ (getWeekofyear year month day weekstart).1 ∧
    (getWeekofyear year month day weekstart).1 ≤
      getYearweeks (weekYear weekstart year (Lib.Gregorian.number year month day))
  negative_eq : getNegativeWeekofyear year month day weekstart =
    (week weekstart year (Lib.Gregorian.number year month day) -
        weeks weekstart (weekYear weekstart year (Lib.Gregorian.number year month day)) - 1,
      decide (weekYear weekstart year (Lib.Gregorian.number year month day) ≠ year))
  order_pos : ∀ order dayofweek, 0 < order → 0 ≤ dayofweek ∧ dayofweek < 7 →
    getMonthweekorder (getDayofmonth year month order dayofweek) = order ∧
      getDayofweek year month (getDayofmonth year month order dayofweek) = dayofweek
  order_neg : ∀ order dayofweek, order < 0 → 0 ≤ dayofweek ∧ dayofweek < 7 →
    getNegativeMonthweekorder year month (getDayofmonth year month order dayofweek) = order ∧
      (-6 ≤ getDayofmonth year month order dayofweek →
        getDayofweek year month (getDayofmonth year month order dayofweek) = dayofweek)
  day_eq : getDayofmonth year month (getMonthweekorder day) (getDayofweek year month day) = day ∧
    getDayofmonth year month (getNegativeMonthweekorder year month day)
      (getDayofweek year month day) = day

/-- The test for 53 weeks is right about the years that the date makes the functions ask about:
the year before for a date before the first week, else the date's year, and the year after as
well for a date in its first week. -/
def TestsRight (weekstart year month day : ℤ) : Prop :=
  if Lib.Gregorian.number year month day < firstWeek weekstart year then
    TestRight weekstart (year - 1)
  else
    TestRight weekstart year ∧
      (firstWeek weekstart (year + 1) ≤ Lib.Gregorian.number year month day →
        TestRight weekstart (year + 1))

/-- The week of the year and its count from the end are those of the calendar exactly where the
test for a year of 53 weeks is right about the years asked about. -/
theorem weekNumbering_iff (weekstart year month day : ℤ) (hy : 1 ≤ year)
    (h : IsDate year month day) (hws : 0 ≤ weekstart ∧ weekstart ≤ 6) :
    WeekNumbering weekstart year month day ↔ TestsRight weekstart year month day := by
  have hthis := getYearweeks_eq_weeks_iff weekstart (by omega : 0 ≤ year)
  have hlast := getYearweeks_eq_weeks_iff weekstart (by omega : 0 ≤ year - 1)
  have hnext := getYearweeks_eq_weeks_iff weekstart (by omega : 0 ≤ year + 1)
  have h5253 := getYearweeks_range (by omega : 0 ≤ year)
  have h5253' := getYearweeks_range (by omega : 0 ≤ year - 1)
  have h5253'' := getYearweeks_range (by omega : 0 ≤ year + 1)
  have hpos := fun order dayofweek => @getDayofmonth_pos year month order dayofweek hy h.month_pos
    h.month_le
  have hneg := fun order dayofweek => @getDayofmonth_neg year month order dayofweek hy h.month_pos
    h.month_le
  have hself := getDayofmonth_self hy h
  unfold TestsRight
  split_ifs with hbefore
  · obtain ⟨hyear, hweek, hnumber⟩ := before_firstWeek hy h hws hbefore
    rw [← hlast]
    refine ⟨fun hw => ?_, fun ht => ⟨?_, ?_, ?_, hpos, hneg, hself⟩⟩
    · have := hw.week_eq
      rw [getWeekofyear, if_pos (by omega), hweek] at this
      exact (Prod.mk.inj this).1
    · rw [getWeekofyear, if_pos (by omega), hweek, hyear, ht]
      simp
    · rw [getWeekofyear, if_pos (by omega), hyear]
      dsimp only
      omega
    · rw [getNegativeWeekofyear, if_pos (by omega), hyear, hweek]
      simp
  · rcases lt_or_ge (Lib.Gregorian.number year month day) (firstWeek weekstart (year + 1))
      with hwithin | hafter
    · obtain ⟨hyear, hweek, h1, hle⟩ := within_weeks hy h hws (not_lt.1 hbefore) hwithin
      have hsimp : (TestRight weekstart year ∧ (firstWeek weekstart (year + 1) ≤
          Lib.Gregorian.number year month day → TestRight weekstart (year + 1))) ↔
          getYearweeks year = weeks weekstart year := by
        rw [hthis]
        exact and_iff_left fun hge => absurd hge (not_le.2 hwithin)
      rw [hsimp]
      refine ⟨fun hw => ?_, fun ht => ⟨?_, ?_, ?_, hpos, hneg, hself⟩⟩
      · have hneg := congrArg Prod.fst hw.negative_eq
        have hpos := congrArg Prod.fst hw.week_eq
        have hw53 := (firstWeek_succ weekstart year).2
        rw [getNegativeWeekofyear, if_neg (by omega), hweek, hyear] at hneg
        rw [getWeekofyear, if_neg (by omega), hweek] at hpos
        split_ifs at hneg hpos <;> dsimp only at hneg hpos <;> omega
      · rw [getWeekofyear, if_neg (by omega), if_neg (by omega), hweek, hyear]
        simp
      · rw [getWeekofyear, if_neg (by omega), if_neg (by omega), hyear]
        dsimp only
        omega
      · rw [getNegativeWeekofyear, if_neg (by omega), if_neg (by omega), hweek, hyear, ht]
        simp
    · obtain ⟨hyear, hweek, h53, h52⟩ := after_weeks hy h hws hafter
      rw [← hthis, forall_prop_of_true hafter, ← hnext]
      refine ⟨fun hw => ?_, fun ht => ⟨?_, ?_, ?_, hpos, hneg, hself⟩⟩
      · have hneg := congrArg Prod.fst hw.negative_eq
        have hpos := congrArg Prod.fst hw.week_eq
        rw [getNegativeWeekofyear, if_neg (by omega), hweek, hyear] at hneg
        rw [getWeekofyear, if_neg (by omega), hweek] at hpos
        split_ifs at hneg hpos <;> dsimp only at hneg hpos <;> omega
      · rw [getWeekofyear, if_neg (by omega), if_pos (by omega), hweek, hyear]
        simp
      · rw [getWeekofyear, if_neg (by omega), if_pos (by omega), hyear]
        dsimp only
        omega
      · rw [getNegativeWeekofyear, if_neg (by omega), if_pos (by omega), hweek, hyear, ht.2]
        simp

/-- In weeks from Monday on 1 January 2024, a Monday, is in the first week. -/
theorem weekNumbering_2024 : WeekNumbering 1 2024 1 1 ↔ TestsRight 1 2024 1 1 :=
  weekNumbering_iff 1 2024 1 1 (by norm_num) (by decide) (by norm_num)

/-- 31 December 2015 is in the week 53 of that year, not in the week 1 of the next one. -/
theorem getWeekofyear_2015 :
    getWeekofyear 2015 12 31 1 = (1, true) ∧
      week 1 2015 (Lib.Gregorian.number 2015 12 31) = 53 ∧
      ¬ WeekNumbering 1 2015 12 31 := by
  have hcode : getWeekofyear 2015 12 31 1 = (1, true) := by decide +kernel
  have hweek : week 1 2015 (Lib.Gregorian.number 2015 12 31) = 53 := by decide +kernel
  refine ⟨hcode, hweek, fun h => ?_⟩
  have := congrArg Prod.fst h.week_eq
  rw [hcode, hweek] at this
  norm_num at this

end Years

end SteepSystem.Icals
