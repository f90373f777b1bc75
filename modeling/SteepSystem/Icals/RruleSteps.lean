import SteepSystem.Icals.Rrules

/-!
Steps of a recurrence rule lead to later times. The days of the times may be past the end of their
months: years are added without a look at the calendar.
-/

namespace SteepSystem.Icals

open SteepSystem.Lib.Gregorian

/-- The fields of a time in their ranges, without a leap second. -/
structure IcalTime.Fielded (t : IcalTime) : Prop where
  month : 1 ≤ t.month ∧ t.month ≤ 12
  day : 1 ≤ t.day ∧ t.day ≤ 31
  hour : 0 ≤ t.hour ∧ t.hour < 24
  minute : 0 ≤ t.minute ∧ t.minute < 60
  second : 0 ≤ t.second ∧ t.second < 60 ∧ t.leapSecond ≤ 59

def IcalTime.dayStamp (t : IcalTime) : ℤ := (t.year * 13 + t.month) * 32 + t.day

def IcalTime.minuteStamp (t : IcalTime) : ℤ := (t.dayStamp * 24 + t.hour) * 60 + t.minute

lemma IcalTime.stamp_eq (t : IcalTime) : t.stamp = t.minuteStamp * 60 + t.second := rfl

lemma IcalTime.Valid.fielded {t : IcalTime} (h : t.Valid) (hleap : t.leapSecond ≤ 59) :
    t.Fielded :=
  ⟨⟨h.date.month_pos, h.date.month_le⟩,
    ⟨h.date.day_pos, h.date.day_le.trans (monthLength_bounds _ _).2⟩, h.hour, h.minute,
    h.second.1, h.second.2, hleap⟩

variable {t t' : IcalTime} {n : ℤ}

/-- The comparison of times is that of their stamps. -/
lemma cmpTime_neg_iff_stamp (h : t.Fielded) (h' : t'.Fielded) :
    cmpTime t t' < 0 ↔ t.stamp < t'.stamp := by
  obtain ⟨hm, hd, hh, hmi, hs⟩ := h
  obtain ⟨hm', hd', hh', hmi', hs'⟩ := h'
  rw [cmpTime_neg_iff]
  unfold IcalTime.stamp
  omega

/-- Dates with greater numbers have greater stamps, also than those of days past their months. -/
lemma dayStamp_lt {y m d y' m' d' : ℤ} (hm : 1 ≤ m ∧ m ≤ 12) (hd : 1 ≤ d ∧ d ≤ 31)
    (h' : IsDate y' m' d') (hlt : number y m d < number y' m' d') :
    (y * 13 + m) * 32 + d < (y' * 13 + m') * 32 + d' := by
  have hm1 := h'.month_pos
  have hd1 := h'.day_pos
  have hd31 : d' ≤ 31 := h'.day_le.trans (monthLength_bounds _ _).2
  have hstart : 0 ≤ monthStart y m := Finset.sum_nonneg fun k _ => (monthLength_pos _ _).le
  unfold number at hlt
  have hyear : y ≤ y' := by
    by_contra hgt
    have hnext := yearStart_mono (Int.add_one_le_of_lt (not_le.mp hgt))
    rw [yearStart_succ] at hnext
    have hle := h'.ordinal_le
    unfold ordinal at hlt hle
    omega
  rcases hyear.lt_or_eq with hyear | rfl
  · omega
  · rcases lt_trichotomy m m' with hlt' | rfl | hgt
    · omega
    · unfold ordinal at hlt
      omega
    · have hnext := h'.ordinal_le_next.trans (monthStart_lt y hm1 hgt)
      unfold ordinal at hlt hnext
      omega

/-- A later day: a date whose number is greater. -/
lemma addDay_number (hm : 1 ≤ t.month ∧ t.month ≤ 12) (hd : 1 ≤ t.day) (hn : 1 ≤ n) :
    ∃ y m d, addDay t n = { t with year := y, month := m, day := d } ∧ IsDate y m d ∧
      number y m d = t.number + n := by
  have hstart : 0 ≤ monthStart t.year t.month :=
    Finset.sum_nonneg fun k _ => (monthLength_pos _ _).le
  have hyearday : getDayofyear t.year t.month t.day = ordinal t.year t.month t.day :=
    getDayofyear_eq _ hm.1 hm.2
  obtain ⟨-, h1, hle, hsum⟩ := addDayLoop_spec t.year
    (show 1 ≤ getDayofyear t.year t.month t.day + n by rw [hyearday, ordinal]; omega)
  obtain ⟨m, d, heq, hdate, hord⟩ := getItimeFromYearday_spec t h1 hle
  refine ⟨_, m, d, heq, hdate, ?_⟩
  rw [number, hord, hsum, hyearday, IcalTime.number, number]
  omega

/-- A date in the place of that of a time. -/
lemma IcalTime.Fielded.withDate {y m d : ℤ} (h : t.Fielded) (hdate : IsDate y m d) :
    ({ t with year := y, month := m, day := d } : IcalTime).Fielded :=
  ⟨⟨hdate.month_pos, hdate.month_le⟩,
    ⟨hdate.day_pos, hdate.day_le.trans (monthLength_bounds _ _).2⟩, h.hour, h.minute, h.second⟩

lemma addDay_later (hm : 1 ≤ t.month ∧ t.month ≤ 12) (hd : 1 ≤ t.day ∧ t.day ≤ 31) (hn : 1 ≤ n) :
    ∃ y m d, addDay t n = { t with year := y, month := m, day := d } ∧ IsDate y m d ∧
      t.dayStamp < (y * 13 + m) * 32 + d := by
  obtain ⟨y, m, d, heq, hdate, hnum⟩ := addDay_number hm hd.1 hn
  refine ⟨y, m, d, heq, hdate, dayStamp_lt hm hd hdate ?_⟩
  rw [hnum, IcalTime.number]
  omega

lemma addHour_later (hm : 1 ≤ t.month ∧ t.month ≤ 12) (hd : 1 ≤ t.day ∧ t.day ≤ 31)
    (hh : 0 ≤ t.hour ∧ t.hour < 24) (hn : 1 ≤ n) :
    ∃ y m d hour, addHour t n = { t with year := y, month := m, day := d, hour := hour } ∧
      (1 ≤ m ∧ m ≤ 12) ∧ (1 ≤ d ∧ d ≤ 31) ∧ (0 ≤ hour ∧ hour < 24) ∧
      t.dayStamp * 24 + t.hour < ((y * 13 + m) * 32 + d) * 24 + hour := by
  have hmod : n.tmod 24 = n % 24 := Int.tmod_eq_emod_of_nonneg (by omega)
  have hdiv : n.tdiv 24 = n / 24 := Int.tdiv_eq_ediv_of_nonneg (by omega)
  -- the whole days first
  obtain ⟨y, m, d, heq, hm', hd', hlater, hsame⟩ : ∃ y m d,
      (if n > 23 then addDay t (n.tdiv 24) else t) = { t with year := y, month := m, day := d } ∧
      (1 ≤ m ∧ m ≤ 12) ∧ (1 ≤ d ∧ d ≤ 31) ∧
      (n > 23 → t.dayStamp < (y * 13 + m) * 32 + d) ∧
      (¬ n > 23 → t.dayStamp = (y * 13 + m) * 32 + d) := by
    split_ifs with hgt
    · obtain ⟨y, m, d, heq, hdate, hlt⟩ := addDay_later hm hd (show 1 ≤ n.tdiv 24 by omega)
      have hd31 : d ≤ 31 := hdate.day_le.trans (monthLength_bounds _ _).2
      exact ⟨y, m, d, heq, ⟨hdate.month_pos, hdate.month_le⟩, ⟨hdate.day_pos, hd31⟩,
        fun _ => hlt, fun hn => absurd hgt hn⟩
    · exact ⟨_, _, _, rfl, hm, hd, fun hn => absurd hn hgt, fun _ => rfl⟩
  unfold addHour
  simp only [heq, hmod]
  split_ifs with hover
  · obtain ⟨y', m', d', heq', hdate', hlt'⟩ := @addDay_later
      { t with year := y, month := m, day := d, hour := t.hour + n % 24 } 1 hm' hd' le_rfl
    rw [heq']
    have hd31 : d' ≤ 31 := hdate'.day_le.trans (monthLength_bounds _ _).2
    refine ⟨y', m', d', t.hour + n % 24 - 24, rfl, ⟨hdate'.month_pos, hdate'.month_le⟩,
      ⟨hdate'.day_pos, hd31⟩, by omega, ?_⟩
    unfold IcalTime.dayStamp at *
    dsimp only at *
    omega
  · exact ⟨y, m, d, t.hour + n % 24, rfl, hm', hd', by omega, by omega⟩

lemma addMinute_later (hm : 1 ≤ t.month ∧ t.month ≤ 12) (hd : 1 ≤ t.day ∧ t.day ≤ 31)
    (hh : 0 ≤ t.hour ∧ t.hour < 24) (hmi : 0 ≤ t.minute ∧ t.minute < 60) (hn : 1 ≤ n) :
    ∃ y m d hour minute, addMinute t n =
        { t with year := y, month := m, day := d, hour := hour, minute := minute } ∧
      (1 ≤ m ∧ m ≤ 12) ∧ (1 ≤ d ∧ d ≤ 31) ∧ (0 ≤ hour ∧ hour < 24) ∧ (0 ≤ minute ∧ minute < 60) ∧
      t.minuteStamp < (((y * 13 + m) * 32 + d) * 24 + hour) * 60 + minute := by
  have hmod : n.tmod 60 = n % 60 := Int.tmod_eq_emod_of_nonneg (by omega)
  have hdiv : n.tdiv 60 = n / 60 := Int.tdiv_eq_ediv_of_nonneg (by omega)
  -- the whole hours first
  obtain ⟨y, m, d, hour, heq, hm', hd', hh', hlater, hsame⟩ : ∃ y m d hour,
      (if n > 59 then addHour t (n.tdiv 60) else t) =
        { t with year := y, month := m, day := d, hour := hour } ∧
      (1 ≤ m ∧ m ≤ 12) ∧ (1 ≤ d ∧ d ≤ 31) ∧ (0 ≤ hour ∧ hour < 24) ∧
      (n > 59 → t.dayStamp * 24 + t.hour < ((y * 13 + m) * 32 + d) * 24 + hour) ∧
      (¬ n > 59 → t.dayStamp * 24 + t.hour = ((y * 13 + m) * 32 + d) * 24 + hour) := by
    split_ifs with hgt
    · obtain ⟨y, m, d, hour, heq, hm', hd', hh', hlt⟩ :=
        addHour_later hm hd hh (show 1 ≤ n.tdiv 60 by omega)
      exact ⟨y, m, d, hour, heq, hm', hd', hh', fun _ => hlt, fun hn => absurd hgt hn⟩
    · exact ⟨_, _, _, _, rfl, hm, hd, hh, fun hn => absurd hn hgt, fun _ => rfl⟩
  unfold addMinute
  simp only [heq, hmod]
  split_ifs with hover
  · obtain ⟨y', m', d', hour', heq', hm'', hd'', hh'', hlt'⟩ := @addHour_later
      { t with
        year := y, month := m, day := d, hour := hour, minute := t.minute + n % 60 }
      1 hm' hd' hh' le_rfl
    rw [heq']
    refine ⟨y', m', d', hour', t.minute + n % 60 - 60, rfl, hm'', hd'', hh'', by omega, ?_⟩
    unfold IcalTime.minuteStamp
    unfold IcalTime.dayStamp at *
    dsimp only at *
    omega
  · refine ⟨y, m, d, hour, t.minute + n % 60, rfl, hm', hd', hh', by omega, ?_⟩
    unfold IcalTime.minuteStamp
    omega

/-- Both in range, and the second time later. -/
structure Later (t t' : IcalTime) : Prop where
  fielded : t'.Fielded
  lt : t.stamp < t'.stamp

lemma addSecond_later (h : t.Fielded) (hn : 1 ≤ n) : Later t (addSecond t n) := by
  have hmod : n.tmod 60 = n % 60 := Int.tmod_eq_emod_of_nonneg (by omega)
  have hdiv : n.tdiv 60 = n / 60 := Int.tdiv_eq_ediv_of_nonneg (by omega)
  have hsec := h.second
  -- the whole minutes first
  obtain ⟨y, m, d, hour, minute, heq, hm', hd', hh', hmi', hlater, hsame⟩ : ∃ y m d hour minute,
      (if n > 59 then addMinute t (n.tdiv 60) else t) =
        { t with year := y, month := m, day := d, hour := hour, minute := minute } ∧
      (1 ≤ m ∧ m ≤ 12) ∧ (1 ≤ d ∧ d ≤ 31) ∧ (0 ≤ hour ∧ hour < 24) ∧ (0 ≤ minute ∧ minute < 60) ∧
      (n > 59 → t.minuteStamp < (((y * 13 + m) * 32 + d) * 24 + hour) * 60 + minute) ∧
      (¬ n > 59 → t.minuteStamp = (((y * 13 + m) * 32 + d) * 24 + hour) * 60 + minute) := by
    split_ifs with hgt
    · obtain ⟨y, m, d, hour, minute, heq, hm', hd', hh', hmi', hlt⟩ :=
        addMinute_later h.month h.day h.hour h.minute (show 1 ≤ n.tdiv 60 by omega)
      exact ⟨y, m, d, hour, minute, heq, hm', hd', hh', hmi', fun _ => hlt, fun hn => absurd hgt hn⟩
    · exact ⟨_, _, _, _, _, rfl, h.month, h.day, h.hour, h.minute, fun hn => absurd hn hgt,
        fun _ => rfl⟩
  unfold addSecond
  simp only [heq, hmod]
  split_ifs with hover
  · obtain ⟨y', m', d', hour', minute', heq', hm'', hd'', hh'', hmi'', hlt'⟩ := @addMinute_later
      { t with
        year := y, month := m, day := d, hour := hour, minute := minute
        second := t.second + n % 60 }
      1 hm' hd' hh' hmi' le_rfl
    rw [heq']
    refine ⟨⟨hm'', hd'', hh'', hmi'', ?_⟩, ?_⟩
    · dsimp only
      omega
    · rw [IcalTime.stamp_eq, IcalTime.stamp_eq]
      unfold IcalTime.minuteStamp IcalTime.dayStamp at *
      dsimp only at *
      omega
  · refine ⟨⟨hm', hd', hh', hmi', ?_⟩, ?_⟩
    · dsimp only
      omega
    · rw [IcalTime.stamp_eq, IcalTime.stamp_eq]
      unfold IcalTime.minuteStamp IcalTime.dayStamp at *
      dsimp only at *
      omega

/-! What is set within a later month, day or hour does not make the time earlier. -/

lemma later_of_month (h : t'.Fielded) (hlt : t.Fielded) (hmonth : t.year * 13 + t.month <
    t'.year * 13 + t'.month) : Later t t' := by
  refine ⟨h, ?_⟩
  obtain ⟨-, hd, hh, hmi, hs⟩ := h
  obtain ⟨-, hd', hh', hmi', hs'⟩ := hlt
  unfold IcalTime.stamp
  omega

lemma later_of_day (h : t'.Fielded) (hlt : t.Fielded) (hday : t.dayStamp < t'.dayStamp) :
    Later t t' := by
  refine ⟨h, ?_⟩
  obtain ⟨-, -, hh, hmi, hs⟩ := h
  obtain ⟨-, -, hh', hmi', hs'⟩ := hlt
  rw [IcalTime.stamp_eq, IcalTime.stamp_eq]
  unfold IcalTime.minuteStamp
  omega

lemma later_of_hour (h : t'.Fielded) (hlt : t.Fielded)
    (hhour : t.dayStamp * 24 + t.hour < t'.dayStamp * 24 + t'.hour) : Later t t' := by
  refine ⟨h, ?_⟩
  obtain ⟨-, -, -, hmi, hs⟩ := h
  obtain ⟨-, -, -, hmi', hs'⟩ := hlt
  rw [IcalTime.stamp_eq, IcalTime.stamp_eq]
  unfold IcalTime.minuteStamp
  omega

lemma later_of_minute (h : t'.Fielded) (hlt : t.Fielded)
    (hminute : t.minuteStamp < t'.minuteStamp) :
    Later t t' := by
  refine ⟨h, ?_⟩
  have hs := h.second
  have hs' := hlt.second
  rw [IcalTime.stamp_eq, IcalTime.stamp_eq]
  omega

/-- A month or more later, in a day that the month has. -/
lemma addMonth_later (h : t.Fielded) (hn : 1 ≤ n) : (addMonth t n).Fielded ∧
    t.year * 13 + t.month < (addMonth t n).year * 13 + (addMonth t n).month := by
  obtain ⟨hm, hd, hh, hmi, hs⟩ := h
  have hmod : n.tmod 12 = n % 12 := Int.tmod_eq_emod_of_nonneg (by omega)
  have hdiv : n.tdiv 12 = n / 12 := Int.tdiv_eq_ediv_of_nonneg (by omega)
  have hclamp (r : IcalTime) (hr : r.Fielded) : (clampDay r).Fielded ∧
      (clampDay r).year = r.year ∧ (clampDay r).month = r.month := by
    have hdays := @getMonthdays_eq r.year r.month hr.month.1 hr.month.2
    have hbounds := monthLength_bounds r.year r.month
    unfold clampDay
    dsimp only
    split_ifs with hgt
    · exact ⟨⟨hr.month, by dsimp only; omega, hr.hour, hr.minute, hr.second⟩, rfl, rfl⟩
    · exact ⟨hr, rfl, rfl⟩
  unfold addMonth
  simp only [hmod, hdiv]
  split_ifs with hover
  · obtain ⟨hf, hy, hmonth⟩ := hclamp
      { t with year := t.year + n / 12 + 1, month := t.month + n % 12 - 12 }
      ⟨by dsimp only; omega, hd, hh, hmi, hs⟩
    exact ⟨hf, by rw [hy, hmonth]; dsimp only; omega⟩
  · obtain ⟨hf, hy, hmonth⟩ := hclamp
      { t with year := t.year + n / 12, month := t.month + n % 12 }
      ⟨by dsimp only; omega, hd, hh, hmi, hs⟩
    exact ⟨hf, by rw [hy, hmonth]; dsimp only; omega⟩

lemma addYear_later (h : t.Fielded) (hn : 1 ≤ n) : Later t (addYear t n) := by
  have hm := h.month
  unfold addYear
  dsimp only
  split_ifs with h4 hleap
  · exact later_of_month ⟨h.month, h.day, h.hour, h.minute, h.second⟩ h (by dsimp only; omega)
  · exact later_of_month ⟨h.month, by dsimp only; omega, h.hour, h.minute, h.second⟩ h
      (by dsimp only; omega)
  · exact later_of_month ⟨h.month, h.day, h.hour, h.minute, h.second⟩ h (by dsimp only; omega)

lemma addDay_fielded (h : t.Fielded) (hn : 1 ≤ n) :
    (addDay t n).Fielded ∧ t.dayStamp < (addDay t n).dayStamp := by
  obtain ⟨y, m, d, heq, hdate, hlt⟩ := addDay_later h.month h.day hn
  rw [heq]
  exact ⟨h.withDate hdate, hlt⟩

lemma addHour_fielded (h : t.Fielded) (hn : 1 ≤ n) : (addHour t n).Fielded ∧
    t.dayStamp * 24 + t.hour < (addHour t n).dayStamp * 24 + (addHour t n).hour := by
  obtain ⟨y, m, d, hour, heq, hm, hd, hh, hlt⟩ := addHour_later h.month h.day h.hour hn
  rw [heq]
  exact ⟨⟨hm, hd, hh, h.minute, h.second⟩, hlt⟩

lemma addMinute_fielded (h : t.Fielded) (hn : 1 ≤ n) : (addMinute t n).Fielded ∧
    t.minuteStamp < (addMinute t n).minuteStamp := by
  obtain ⟨y, m, d, hour, minute, heq, hm, hd, hh, hmi, hlt⟩ :=
    addMinute_later h.month h.day h.hour h.minute hn
  rw [heq]
  exact ⟨⟨hm, hd, hh, hmi, h.second⟩, hlt⟩

/-- A step by units of a frequency. -/
lemma addUnits_later (frequency : Freq) (h : t.Fielded) (hn : 1 ≤ n) :
    Later t (addUnits frequency n t) := by
  cases frequency with
  | second => exact addSecond_later h hn
  | minute =>
    have hstep := addMinute_fielded h hn
    exact later_of_minute hstep.1 h hstep.2
  | hour =>
    have hstep := addHour_fielded h hn
    exact later_of_hour hstep.1 h hstep.2
  | day =>
    have hstep := addDay_fielded h hn
    exact later_of_day hstep.1 h hstep.2
  | week =>
    have hstep := addDay_fielded h (show 1 ≤ 7 * n by omega)
    exact later_of_day hstep.1 h hstep.2
  | month =>
    have hstep := addMonth_later h hn
    exact later_of_month hstep.1 h hstep.2
  | year => exact addYear_later h hn

/-! Steps of a rule. -/

variable {rule : Rrule}

/-- A time that the rule takes its steps from. Days of the week are right from the year 1 on. -/
structure Rrule.Admits (rule : Rrule) (t : IcalTime) : Prop where
  fielded : t.Fielded
  year_pos : rule.frequency = .year ∨ rule.frequency = .month → 1 ≤ t.year

lemma Later.year_le (h : t.Fielded) (h' : Later t t') : t.year ≤ t'.year := by
  obtain ⟨⟨hm', hd', hh', hmi', hs'⟩, hlt⟩ := h'
  obtain ⟨hm, hd, hh, hmi, hs⟩ := h
  unfold IcalTime.stamp at hlt
  omega

lemma Rrule.Admits.later (h : rule.Admits t) (h' : Later t t') : rule.Admits t' :=
  ⟨h'.fielded, fun hf => (h.year_pos hf).trans (h'.year_le h.fielded)⟩

/-- A rule with its base and the next one. -/
structure Rrule.Steady (rule : Rrule) : Prop where
  interval_pos : 1 ≤ rule.interval
  weekstart : 0 ≤ rule.weekstart ∧ rule.weekstart < 7
  base : rule.Admits rule.baseItime
  next_eq : rule.nextBaseItime = addUnits rule.frequency rule.interval rule.baseItime

lemma Rrule.Steady.next_later (h : rule.Steady) : Later rule.baseItime rule.nextBaseItime := by
  rw [h.next_eq]
  exact addUnits_later _ h.base.fielded h.interval_pos

lemma Rrule.Steady.next (h : rule.Steady) : rule.Admits rule.nextBaseItime :=
  h.base.later h.next_later

lemma zeroHour_spec (rule : Rrule) (h : t.Fielded) : (rule.zeroHour t).Fielded ∧
    (rule.zeroHour t).year = t.year ∧ (rule.zeroHour t).month = t.month ∧
    (rule.zeroHour t).day = t.day := by
  unfold Rrule.zeroHour
  split_ifs
  · exact ⟨⟨h.month, h.day, by dsimp only; omega, h.minute, h.second⟩, rfl, rfl, rfl⟩
  · exact ⟨h, rfl, rfl, rfl⟩

lemma zeroMinute_spec (rule : Rrule) (h : t.Fielded) : (rule.zeroMinute t).Fielded ∧
    (rule.zeroMinute t).year = t.year ∧ (rule.zeroMinute t).month = t.month ∧
    (rule.zeroMinute t).day = t.day ∧ (rule.zeroMinute t).hour = t.hour := by
  unfold Rrule.zeroMinute
  split_ifs
  · exact ⟨⟨h.month, h.day, h.hour, by dsimp only; omega, h.second⟩, rfl, rfl, rfl, rfl⟩
  · exact ⟨h, rfl, rfl, rfl, rfl⟩

lemma zeroSecond_spec (rule : Rrule) (h : t.Fielded) : (rule.zeroSecond t).Fielded ∧
    (rule.zeroSecond t).year = t.year ∧ (rule.zeroSecond t).month = t.month ∧
    (rule.zeroSecond t).day = t.day ∧ (rule.zeroSecond t).hour = t.hour ∧
    (rule.zeroSecond t).minute = t.minute := by
  have hs := h.second
  unfold Rrule.zeroSecond
  split_ifs
  · exact ⟨⟨h.month, h.day, h.hour, h.minute, by dsimp only; omega⟩, rfl, rfl, rfl, rfl, rfl⟩
  · exact ⟨h, rfl, rfl, rfl, rfl, rfl⟩

lemma zeroTime_spec (rule : Rrule) (h : t.Fielded) : (rule.zeroTime t).Fielded ∧
    (rule.zeroTime t).year = t.year ∧ (rule.zeroTime t).month = t.month ∧
    (rule.zeroTime t).day = t.day := by
  obtain ⟨h1, hy1, hm1, hd1⟩ := zeroHour_spec rule h
  obtain ⟨h2, hy2, hm2, hd2, -⟩ := zeroMinute_spec rule h1
  obtain ⟨h3, hy3, hm3, hd3, -⟩ := zeroSecond_spec rule h2
  exact ⟨h3, hy3.trans (hy2.trans hy1), hm3.trans (hm2.trans hm1), hd3.trans (hd2.trans hd1)⟩

/-- The time of the day set back in a later day. -/
lemma zeroTime_later (rule : Rrule) (h : t.Fielded) (h' : t'.Fielded)
    (hday : t.dayStamp < t'.dayStamp) : Later t (rule.zeroTime t') := by
  obtain ⟨hf, hy, hm, hd⟩ := zeroTime_spec rule h'
  refine later_of_day hf h ?_
  unfold IcalTime.dayStamp at *
  rw [hy, hm, hd]
  exact hday

/-- The start of the week is a date at most six days before. -/
lemma toWeekstart_spec (hws : 0 ≤ rule.weekstart ∧ rule.weekstart < 7) (hy : 1 ≤ t.year)
    (h : IsDate t.year t.month t.day) : ∃ y m d, rule.toWeekstart t =
      { t with year := y, month := m, day := d } ∧ IsDate y m d ∧
      t.number - 6 ≤ number y m d := by
  have hday := h.day_pos
  have hdow := getDayofweek_range t.day hy h.month_pos h.month_le (by omega)
  unfold Rrule.toWeekstart
  dsimp only
  split_ifs with hge
  · obtain ⟨y, m, d, heq, hdate, hnum⟩ := @subtractDay_spec t
      (getDayofweek t.year t.month t.day - rule.weekstart) h (by omega)
    exact ⟨y, m, d, heq, hdate, by omega⟩
  · obtain ⟨y, m, d, heq, hdate, hnum⟩ := @subtractDay_spec t
      (7 + getDayofweek t.year t.month t.day - rule.weekstart) h (by omega)
    exact ⟨y, m, d, heq, hdate, by omega⟩

/-- A day of the first week of a month. -/
lemma getDayofmonth_first {year month dayofweek : ℤ} (hy : 1 ≤ year) (h1 : 1 ≤ month)
    (h12 : month ≤ 12) (hw : 0 ≤ dayofweek ∧ dayofweek < 7) :
    1 ≤ getDayofmonth year month 1 dayofweek ∧ getDayofmonth year month 1 dayofweek ≤ 7 := by
  have hfirst := getDayofweek_range 1 hy h1 h12 (by norm_num)
  unfold getDayofmonth
  rw [if_pos (by norm_num)]
  dsimp only
  split_ifs <;> omega

lemma nextMonth_spec (rule : Rrule) (h : t.Fielded) (hy : 1 ≤ t.year) :
    (rule.nextMonth t).Fielded ∧
      t.year * 13 + t.month < (rule.nextMonth t).year * 13 + (rule.nextMonth t).month := by
  obtain ⟨hf, hlt⟩ := addMonth_later h (show (1 : ℤ) ≤ 1 from le_rfl)
  have hm := h.month
  have hm' := hf.month
  have hday := h.day
  have hdow := getDayofweek_range t.day hy h.month.1 h.month.2 (by omega)
  have hfirst := getDayofmonth_first (show 1 ≤ (addMonth t 1).year by omega) hm'.1 hm'.2 hdow
  unfold Rrule.nextMonth
  dsimp only
  split_ifs
  · exact ⟨⟨hf.month, by dsimp only; omega, hf.hour, hf.minute, hf.second⟩, hlt⟩
  · exact ⟨⟨hf.month, by dsimp only; omega, hf.hour, hf.minute, hf.second⟩, hlt⟩
  · exact ⟨⟨hf.month, by dsimp only; omega, hf.hour, hf.minute, hf.second⟩, hlt⟩
  · exact ⟨hf, hlt⟩

/-- A week on, and back to the start of that week where the rule fixes the day in it. -/
lemma passWeek_later (hws : 0 ≤ rule.weekstart ∧ rule.weekstart < 7) (h : t.Fielded)
    (hy : 1 ≤ t.year) : Later t (rule.passLong t .weekno) := by
  obtain ⟨y, m, d, heq, hdate, hnum⟩ :=
    addDay_number h.month h.day.1 (show (1 : ℤ) ≤ 7 by norm_num)
  have hlt : t.dayStamp < (y * 13 + m) * 32 + d :=
    dayStamp_lt h.month h.day hdate (by rw [hnum, IcalTime.number]; omega)
  unfold Rrule.passLong
  dsimp only
  rw [heq]
  split_ifs
  · have hmonth := h.month
    have hday := h.day
    have hm1 := hdate.month_pos
    have hm12 := hdate.month_le
    have hd31 : d ≤ 31 := hdate.day_le.trans (monthLength_bounds _ _).2
    have hy' : 1 ≤ y := by
      unfold IcalTime.dayStamp at hlt
      omega
    obtain ⟨y', m', d', heq', hdate', hnum'⟩ :=
      @toWeekstart_spec { t with year := y, month := m, day := d } rule hws hy' hdate
    change number y m d - 6 ≤ number y' m' d' at hnum'
    rw [heq']
    have hlater : number t.year t.month t.day < number y' m' d' := by
      have hold : t.number = number t.year t.month t.day := rfl
      omega
    exact zeroTime_later rule h ((h.withDate hdate).withDate hdate')
      (dayStamp_lt h.month h.day hdate' hlater)
  · exact zeroTime_later rule h (h.withDate hdate) hlt

lemma passLong_later (hws : 0 ≤ rule.weekstart ∧ rule.weekstart < 7) (h : t.Fielded)
    (hy : 1 ≤ t.year) {hint : By} (hhint : hint ≠ .setpos) : Later t (rule.passLong t hint) := by
  have hday : Later t (rule.zeroTime (addDay t 1)) := by
    obtain ⟨hf, hlt⟩ := addDay_fielded h (show (1 : ℤ) ≤ 1 from le_rfl)
    exact zeroTime_later rule h hf hlt
  cases hint with
  | setpos => exact absurd rfl hhint
  | month =>
    obtain ⟨hf, hlt⟩ := nextMonth_spec rule h hy
    obtain ⟨hf', hy', hm', -⟩ := zeroTime_spec rule hf
    exact later_of_month hf' h (by rw [Rrule.passLong, hy', hm']; exact hlt)
  | weekno => exact passWeek_later hws h hy
  | yearday => exact hday
  | monthday => exact hday
  | day => exact hday
  | hour =>
    obtain ⟨hf, hlt⟩ := addHour_fielded h (show (1 : ℤ) ≤ 1 from le_rfl)
    obtain ⟨hf1, hy1, hm1, hd1, hh1⟩ := zeroMinute_spec rule hf
    obtain ⟨hf2, hy2, hm2, hd2, hh2, -⟩ := zeroSecond_spec rule hf1
    refine later_of_hour hf2 h ?_
    rw [IcalTime.dayStamp, IcalTime.dayStamp] at hlt ⊢
    rw [Rrule.passLong, hy2, hm2, hd2, hh2, hy1, hm1, hd1, hh1]
    exact hlt
  | minute =>
    obtain ⟨hf, hlt⟩ := addMinute_fielded h (show (1 : ℤ) ≤ 1 from le_rfl)
    obtain ⟨hf1, hy1, hm1, hd1, hh1, hmi1⟩ := zeroSecond_spec rule hf
    refine later_of_minute hf1 h ?_
    rw [IcalTime.minuteStamp, IcalTime.minuteStamp, IcalTime.dayStamp, IcalTime.dayStamp] at hlt ⊢
    rw [Rrule.passLong, hy1, hm1, hd1, hh1, hmi1]
    exact hlt
  | second => exact addSecond_later h le_rfl

lemma passShort_later (frequency : Freq) (h : t.Fielded) (hint : By) :
    Later t (passShort frequency t hint) := by
  have hunits (f : Freq) : Later t (addUnits f 1 t) := addUnits_later f h le_rfl
  cases hint with
  | second => exact hunits .second
  | minute =>
    simp only [passShort]
    split_ifs
    · exact hunits .minute
    · exact hunits frequency
  | hour =>
    simp only [passShort]
    split_ifs
    · exact hunits .hour
    · exact hunits frequency
  | yearday | monthday | day =>
    simp only [passShort]
    split_ifs
    · exact hunits .day
    · exact hunits frequency
  | weekno | month | setpos => exact hunits frequency

lemma hintRrule_ne_setpos (rule : Rrule) (t : IcalTime) : hintRrule rule t ≠ some .setpos := by
  unfold hintRrule
  split_ifs <;> simp

/-- A step from a time before the next base leads to a later time. -/
lemma nextRruleItime_later (hs : rule.Steady) (h : rule.Admits t) {hint : Option By}
    (hhint : hint ≠ some .setpos) (hlt : hint ≠ none → t.stamp < rule.nextBaseItime.stamp) :
    Later t (nextRruleItime rule hint t) := by
  cases hint with
  | none =>
    refine addUnits_later _ h.fielded ?_
    split_ifs
    · exact hs.interval_pos
    · exact le_rfl
  | some hint =>
    have hpass : Later t (rule.pass t hint) := by
      have hne : hint ≠ .setpos := fun heq => hhint (by rw [heq])
      unfold Rrule.pass
      split
      · exact passLong_later hs.weekstart h.fielded (h.year_pos (Or.inl ‹_›)) hne
      · exact passLong_later hs.weekstart h.fielded (h.year_pos (Or.inr ‹_›)) hne
      · exact passShort_later _ h.fielded hint
    unfold nextRruleItime
    dsimp only
    split_ifs
    · exact ⟨hs.next.fielded, hlt (by simp)⟩
    · exact hpass

end SteepSystem.Icals
