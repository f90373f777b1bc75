import SteepSystem.Lib.Searches
import SteepSystem.Icals.Weeks

/-!
Recurrence rules of the calendar library (`ical.c`): what `ical_parse_rrule` makes of the parts of
a rule, and the search of `ical_rrule_iterate` for the next instance. The parts are there as the
numbers that are read from them, and times as they come out of the conversion to a time zone.
-/

namespace SteepSystem.Icals

open SteepSystem.Lib.Searches

/-- `ICAL_FREQUENCY_*` -/
inductive Freq
  | second
  | minute
  | hour
  | day
  | week
  | month
  | year
deriving DecidableEq

def Freq.code : Freq → ℕ
  | second => 1
  | minute => 2
  | hour => 3
  | day => 4
  | week => 5
  | month => 6
  | year => 7

/-- `RRULE_BY_*` -/
inductive By
  | setpos
  | second
  | minute
  | hour
  | day
  | monthday
  | yearday
  | weekno
  | month
deriving DecidableEq

/-- The bit that is read at an index, behind the end of a bitmap too. -/
abbrev Bits := ℤ → Bool

/-- `ICAL_RRULE`; `b_until` tells whether there is an `until_itime`. -/
structure Rrule where
  totalCount : ℤ
  currentInstance : ℤ
  baseItime : IcalTime
  nextBaseItime : IcalTime
  instanceItime : IcalTime
  untilItime : Option IcalTime
  bStartExceptional : Bool
  realStartItime : IcalTime
  interval : ℤ
  frequency : Freq
  realFrequency : Freq
  weekstart : ℤ
  byMask : By → Bool
  curSetpos : ℤ
  setposCount : ℤ
  secondBitmap : Bits
  minuteBitmap : Bits
  hourBitmap : Bits
  wdayBitmap : Bits
  nwdayBitmap : Bits
  mdayBitmap : Bits
  nmdayBitmap : Bits
  ydayBitmap : Bits
  nydayBitmap : Bits
  weekBitmap : Bits
  nweekBitmap : Bits
  monthBitmap : Bits
  setposBitmap : Bits
  nsetposBitmap : Bits

/-- `ical_get_yearweekorder` -/
def getYearweekorder (year month day : ℤ) : ℤ := (getDayofyear year month day - 1).tdiv 7 + 1

/-- `ical_get_negative_yearweekorder` -/
def getNegativeYearweekorder (year month day : ℤ) : ℤ :=
  (getDayofyear year month day - yeardays year).tdiv 7 - 1

/-- The week is none of the rule's, or it counts to another year. -/
def Rrule.missesWeekno (rule : Rrule) (itime : IcalTime) : Bool :=
  let week := getWeekofyear itime.year itime.month itime.day rule.weekstart
  let nweek := getNegativeWeekofyear itime.year itime.month itime.day rule.weekstart
  (week.2 && rule.frequency = .year) || (nweek.2 && rule.frequency = .year) ||
    (!rule.weekBitmap (week.1 - 1) && !rule.nweekBitmap (-1 * nweek.1 - 1))

def Rrule.missesYearday (rule : Rrule) (itime : IcalTime) : Bool :=
  let yearday := getDayofyear itime.year itime.month itime.day
  !rule.ydayBitmap (yearday - 1) && !rule.nydayBitmap (yeardays itime.year - yearday)

def Rrule.missesMonthday (rule : Rrule) (itime : IcalTime) : Bool :=
  !rule.mdayBitmap (itime.day - 1) &&
    !rule.nmdayBitmap (getMonthdays itime.year itime.month - itime.day)

/-- The orders of a weekday from the start and from the end of what the rule divides. -/
def Rrule.weekorders (rule : Rrule) (itime : IcalTime) : ℤ × ℤ :=
  if rule.frequency = .week then
    ((deltaDay itime rule.baseItime).tdiv 7 + 1,
      (-1 * (deltaDay itime rule.nextBaseItime - 1)).tdiv 7 - 1)
  else if rule.frequency = .month ∨ rule.byMask .month then
    (getMonthweekorder itime.day, getNegativeMonthweekorder itime.year itime.month itime.day)
  else
    (getYearweekorder itime.year itime.month itime.day,
      getNegativeYearweekorder itime.year itime.month itime.day)

def Rrule.missesDay (rule : Rrule) (itime : IcalTime) : Bool :=
  let dayofweek := getDayofweek itime.year itime.month itime.day
  let (weekorder, nweekorder) := rule.weekorders itime
  !rule.wdayBitmap (7 * (weekorder - 1) + dayofweek) &&
    !rule.nwdayBitmap (7 * (-1 * nweekorder - 1) + dayofweek)

/-- `ical_hint_rrule`: the first part of the rule that the time does not meet, if any. -/
def hintRrule (rule : Rrule) (itime : IcalTime) : Option By :=
  if rule.byMask .month && !rule.monthBitmap (itime.month - 1) then some .month
  else if rule.byMask .weekno && rule.missesWeekno itime then some .weekno
  else if rule.byMask .yearday && rule.missesYearday itime then some .yearday
  else if rule.byMask .monthday && rule.missesMonthday itime then some .monthday
  else if rule.byMask .day && rule.missesDay itime then some .day
  else if rule.byMask .hour && !rule.hourBitmap itime.hour then some .hour
  else if rule.byMask .minute && !rule.minuteBitmap itime.minute then some .minute
  else if rule.byMask .second && !rule.secondBitmap itime.second then some .second
  else none

/-- `ical_hint_setpos` -/
def hintSetpos (rule : Rrule) : Bool :=
  rule.setposBitmap (rule.curSetpos - 1) || rule.nsetposBitmap (rule.setposCount - rule.curSetpos)

/-- A time moved by so many units of a frequency. -/
def addUnits (frequency : Freq) (n : ℤ) (itime : IcalTime) : IcalTime :=
  match frequency with
  | .year => addYear itime n
  | .month => addMonth itime n
  | .week => addDay itime (7 * n)
  | .day => addDay itime n
  | .hour => addHour itime n
  | .minute => addMinute itime n
  | .second => addSecond itime n

def Rrule.zeroHour (rule : Rrule) (itime : IcalTime) : IcalTime :=
  if rule.byMask .hour then { itime with hour := 0 } else itime

def Rrule.zeroMinute (rule : Rrule) (itime : IcalTime) : IcalTime :=
  if rule.byMask .minute then { itime with minute := 0 } else itime

def Rrule.zeroSecond (rule : Rrule) (itime : IcalTime) : IcalTime :=
  if rule.byMask .second then { itime with second := 0 } else itime

/-- The parts of the time of the day that the rule fixes. -/
def Rrule.zeroTime (rule : Rrule) (itime : IcalTime) : IcalTime :=
  rule.zeroSecond (rule.zeroMinute (rule.zeroHour itime))

/-- The rule fixes the day in one of three ways. -/
def Rrule.fixesDay (rule : Rrule) : Bool :=
  rule.byMask .yearday || rule.byMask .monthday || rule.byMask .day

/-- The day that a week begins with, on or before a day. -/
def Rrule.toWeekstart (rule : Rrule) (itime : IcalTime) : IcalTime :=
  let dayofweek := getDayofweek itime.year itime.month itime.day
  if dayofweek ≥ rule.weekstart then subtractDay itime (dayofweek - rule.weekstart)
  else subtractDay itime (7 + dayofweek - rule.weekstart)

/-- The day in a month that was missed: the same weekday in its first week, or the first. -/
def Rrule.nextMonth (rule : Rrule) (itime : IcalTime) : IcalTime :=
  let dayofweek := getDayofweek itime.year itime.month itime.day
  let itime := addMonth itime 1
  let itime := if rule.byMask .weekno then
      { itime with day := getDayofmonth itime.year itime.month 1 dayofweek }
    else itime
  if rule.fixesDay then { itime with day := 1 } else itime

/-- The step past a time that misses a part, in rules by the year or the month. -/
def Rrule.passLong (rule : Rrule) (itime : IcalTime) : By → IcalTime
  | .month => rule.zeroTime (rule.nextMonth itime)
  | .weekno =>
    let itime := addDay itime 7
    rule.zeroTime (if rule.fixesDay then rule.toWeekstart itime else itime)
  | .yearday | .monthday | .day => rule.zeroTime (addDay itime 1)
  | .hour => rule.zeroSecond (rule.zeroMinute (addHour itime 1))
  | .minute => rule.zeroSecond (addMinute itime 1)
  | .second => addSecond itime 1
  | .setpos => itime

/-- In the other rules; a part that is larger than the unit is passed by one unit. -/
def passShort (frequency : Freq) (itime : IcalTime) : By → IcalTime
  | .second => addSecond itime 1
  | .minute =>
    if 2 < frequency.code then addMinute itime 1 else addUnits frequency 1 itime
  | .hour => if 3 < frequency.code then addHour itime 1 else addUnits frequency 1 itime
  | .yearday | .monthday | .day =>
    if 4 < frequency.code then addDay itime 1 else addUnits frequency 1 itime
  | .weekno | .month | .setpos => addUnits frequency 1 itime

def Rrule.pass (rule : Rrule) (itime : IcalTime) (hint : By) : IcalTime :=
  match rule.frequency with
  | .year | .month => rule.passLong itime hint
  | frequency => passShort frequency itime hint

/-- The time has left the unit that the base is in, as far as the field of the unit tells. -/
def Rrule.leavesBase (rule : Rrule) (itime : IcalTime) : Bool :=
  match rule.frequency with
  | .year => itime.year > rule.baseItime.year
  | .month => itime.month > rule.baseItime.month
  | .week => deltaDay itime rule.baseItime ≥ 7
  | .day => itime.day > rule.baseItime.day
  | .hour => itime.hour > rule.baseItime.hour
  | .minute => itime.minute > rule.baseItime.minute
  | .second => itime.second > rule.baseItime.second

/-- `ical_next_rrule_itime` -/
def nextRruleItime (rule : Rrule) (hintResult : Option By) (itime : IcalTime) : IcalTime :=
  match hintResult with
  | none =>
    addUnits rule.realFrequency
      (if rule.realFrequency = .year ∨ rule.realFrequency = rule.frequency then rule.interval
        else 1)
      itime
  | some hint =>
    let itime := rule.pass itime hint
    if rule.leavesBase itime then rule.nextBaseItime else itime

/-- `ical_next_rrule_base_itime` -/
def nextRruleBaseItime (rule : Rrule) : Rrule :=
  { rule with nextBaseItime := addUnits rule.frequency rule.interval rule.baseItime }

/-- Seconds, as if each month had 32 days and each year 13 months. -/
def IcalTime.stamp (itime : IcalTime) : ℤ :=
  ((((itime.year * 13 + itime.month) * 32 + itime.day) * 24 + itime.hour) * 60 +
    itime.minute) * 60 + itime.second

/-- The turns of the loop over the times of one base. -/
def setposNext (rule : Rrule) (s : IcalTime × ℤ) : IcalTime × ℤ :=
  let hintResult := hintRrule rule s.1
  (nextRruleItime rule hintResult s.1, if hintResult = none then s.2 + 1 else s.2)

def setposOut (rule : Rrule) (s : IcalTime × ℤ) : Option ℤ :=
  if cmpTime rule.nextBaseItime s.1 > 0 then none else some s.2

/-- The loop of `ical_calculate_setpos`, with as many turns as there are seconds to the next
base. -/
def setposLoop (rule : Rrule) : Option ℤ :=
  search (setposNext rule) (setposOut rule)
    (rule.nextBaseItime.stamp + 2 - rule.baseItime.stamp).toNat (rule.baseItime, 0)

def calculateSetpos (rule : Rrule) : Rrule :=
  { rule with curSetpos := 0, setposCount := (setposLoop rule).getD 0 }

/-- A time of a search with the part that it does not meet, and the rule counted on. -/
structure Visit where
  rule : Rrule
  itime : IcalTime
  hintResult : Option By

/-- A time looked at; one that meets all parts is counted. -/
def visit (rule : Rrule) (itime : IcalTime) : Visit :=
  let hintResult := hintRrule rule itime
  { rule := if hintResult = none ∧ rule.byMask .setpos then
        { rule with curSetpos := rule.curSetpos + 1 }
      else rule
    itime, hintResult }

/-- The time meets all parts and has one of the positions asked for. -/
def Visit.accepted (s : Visit) : Bool :=
  s.hintResult = none && (!s.rule.byMask .setpos || hintSetpos s.rule)

/-- The base moved on to the next one. -/
def Rrule.moved (rule : Rrule) : Rrule :=
  nextRruleBaseItime { rule with baseItime := rule.nextBaseItime }

def rebase (rule : Rrule) : Rrule :=
  if rule.moved.byMask .setpos then calculateSetpos rule.moved else rule.moved

def pastUntil (rule : Rrule) (itime : IcalTime) : Bool :=
  rule.untilItime.any fun untilItime => cmpTime itime untilItime > 0

/-- A turn of the loop of `ical_rrule_iterate`, to the next time that is looked at. -/
def Visit.advance (s : Visit) : Visit :=
  let itime := nextRruleItime s.rule s.hintResult s.itime
  if cmpTime itime s.rule.nextBaseItime ≥ 0 then visit (rebase s.rule) s.rule.nextBaseItime
  else visit s.rule itime

def Visit.out (s : Visit) : Option (Bool × Rrule) :=
  if pastUntil s.rule (nextRruleItime s.rule s.hintResult s.itime) then some (false, s.rule)
  else if s.advance.accepted then
    some (true, { s.advance.rule with
      currentInstance := s.advance.rule.currentInstance + 1
      instanceItime := s.advance.itime })
  else none

/-- The state that the loop starts in. -/
def Rrule.start (rule : Rrule) : Visit := ⟨rule, rule.instanceItime, none⟩

/-- `COUNT` has been reached. -/
def Rrule.exhausted (rule : Rrule) : Bool :=
  rule.totalCount ≠ 0 ∧ rule.currentInstance ≥ rule.totalCount

/-- `ical_rrule_iterate`, with the turns that are granted to its loop. -/
def rruleIterate (fuel : ℕ) (rule : Rrule) : Option (Bool × Rrule) :=
  if rule.exhausted then some (false, rule)
  else if rule.bStartExceptional then
    if pastUntil rule rule.realStartItime then some (false, rule)
    else some (true, nextRruleBaseItime { rule with
      bStartExceptional := false
      currentInstance := rule.currentInstance + 1
      instanceItime := rule.realStartItime
      baseItime := rule.nextBaseItime })
  else search Visit.advance Visit.out fuel rule.start

/-! `ical_parse_rrule` -/

/-- The parts of a rule. A list stands for its values as `atoi` reads them, without a value where
there is a null pointer, or as `ical_parse_byday` reads them, if it does; a time comes with its
seconds. -/
structure RruleParts where
  frequency : Freq
  interval : Option ℤ
  count : Option ℤ
  untilTime : Option (ℤ × IcalTime)
  startTime : ℤ × IcalTime
  bysecond : Option (List (Option ℤ))
  byminute : Option (List (Option ℤ))
  byhour : Option (List (Option ℤ))
  bymonthday : Option (List (Option ℤ))
  byyearday : Option (List (Option ℤ))
  byday : Option (List (Option (ℤ × ℤ)))
  byweekno : Option (List (Option ℤ))
  bymonth : Option (List (Option ℤ))
  bysetpos : Option (List (Option ℤ))
  /-- From Sunday on. -/
  wkst : Option (Fin 7)

/-- All values of a list are there and within bounds. -/
def within (low high : ℤ) (values : Option (List (Option ℤ))) : Bool :=
  values.all fun l => l.all fun v => v.any fun v => low ≤ v ∧ v ≤ high

/-- The bounds of values that count from the end when they are negative. -/
def withinBoth (high : ℤ) (values : Option (List (Option ℤ))) : Bool :=
  within (-high) high values && values.all fun l => l.all fun v => v ≠ some 0

/-- A bitmap of so many bits with those set that some values tell; what stands behind the end of
it is not known. -/
def bitsOf (beyond : Bits) (size : ℤ) (indices : List ℤ) : Bits := fun i =>
  if 0 ≤ i ∧ i < size then i ∈ indices else beyond i

def valuesOf (values : Option (List (Option ℤ))) : List ℤ := (values.getD []).filterMap id

def fromStart (values : Option (List (Option ℤ))) : List ℤ :=
  ((valuesOf values).filter (· > 0)).map (· - 1)

def fromEnd (values : Option (List (Option ℤ))) : List ℤ :=
  ((valuesOf values).filter (· < 0)).map (-1 * · - 1)

/-- The order of a weekday that the frequency admits. -/
def bydayAdmitted (frequency : Freq) (values : Option (List (Option (ℤ × ℤ)))) : Bool :=
  values.all fun l => (frequency = .week ∨ frequency = .month ∨ frequency = .year) ∧
    l.all fun v => v.any fun v =>
      match frequency with
      | .month => -5 ≤ v.2 ∧ v.2 ≤ 5
      | .year => true
      | _ => v.2 = 0

/-- The bits for a weekday from the start. Without an order it stands for those of all weeks. -/
def wdayIndices (frequency : Freq) (v : ℤ × ℤ) : List ℤ :=
  if v.2 > 0 then [7 * (v.2 - 1) + v.1]
  else if v.2 < 0 then []
  else
    match frequency with
    | .month => (List.range 5).map fun i => 7 * i + v.1
    | .year => (List.range 53).map fun i => 7 * i + v.1
    | _ => [v.1]

def nwdayIndices (v : ℤ × ℤ) : List ℤ := if v.2 < 0 then [7 * (-1 * v.2 - 1) + v.1] else []

/-- The frequency lowered to a part that is there. -/
def lower {α : Type} (part : Option α) (limit frequency : Freq) : Freq :=
  if part.isSome ∧ frequency.code > limit.code then limit else frequency

def RruleParts.realFrequency (p : RruleParts) : Freq :=
  lower p.bymonth .month <| lower p.byweekno .week <| lower p.byday .day <|
    lower p.byyearday .day <| lower p.bymonthday .day <| lower p.byhour .hour <|
    lower p.byminute .minute <| lower p.bysecond .second p.frequency

/-- The rules that positions are admitted for. -/
def setposAdmitted (frequency realFrequency : Freq) (interval : ℤ) : Bool :=
  match frequency, realFrequency with
  | .minute, .second => 60 * interval ≤ 366
  | .hour, .minute => 60 * interval ≤ 366
  | .day, .hour => 24 * interval ≤ 366
  | .week, .day => true
  | .week, .hour => 7 * 24 * interval ≤ 366
  | .month, .day => 31 * interval ≤ 366
  | .month, .week => 5 * interval ≤ 366
  | .year, .day => interval ≤ 1
  | .year, .week => interval ≤ 8
  | .year, .month => interval ≤ 30
  | _, _ => false

/-- The checks of the parts. -/
def RruleParts.admitted (p : RruleParts) : Bool :=
  p.interval.all (0 < ·) && p.count.all (0 < ·) &&
    p.untilTime.all (fun untilTime => p.count.isNone && p.startTime.1 < untilTime.1) &&
    within 0 59 p.bysecond && within 0 59 p.byminute && within 0 23 p.byhour &&
    withinBoth 31 p.bymonthday && withinBoth 366 p.byyearday && bydayAdmitted p.frequency p.byday &&
    withinBoth 53 p.byweekno && within 1 12 p.bymonth &&
    p.bysetpos.all (fun _ => setposAdmitted p.frequency p.realFrequency (p.interval.getD 1)) &&
    withinBoth 366 p.bysetpos

def RruleParts.byMask (p : RruleParts) : By → Bool
  | .setpos => p.bysetpos.isSome
  | .second => p.bysecond.isSome
  | .minute => p.byminute.isSome
  | .hour => p.byhour.isSome
  | .day => p.byday.isSome
  | .monthday => p.bymonthday.isSome
  | .yearday => p.byyearday.isSome
  | .weekno => p.byweekno.isSome
  | .month => p.bymonth.isSome

def RruleParts.weekstart (p : RruleParts) : ℤ :=
  match p.wkst with
  | some d => d.val
  | none => if p.byweekno.isSome then 1 else 0

/-- The rule before its base is known. -/
def RruleParts.rule (p : RruleParts) (beyond : Bits) : Rrule where
  totalCount := p.count.getD 0
  currentInstance := 0
  baseItime := p.startTime.2
  nextBaseItime := p.startTime.2
  instanceItime := p.startTime.2
  untilItime := p.untilTime.map Prod.snd
  bStartExceptional := false
  realStartItime := p.startTime.2
  interval := p.interval.getD 1
  frequency := p.frequency
  realFrequency := p.realFrequency
  weekstart := p.weekstart
  byMask := p.byMask
  curSetpos := 0
  setposCount := 0
  secondBitmap := bitsOf beyond 64 (valuesOf p.bysecond)
  minuteBitmap := bitsOf beyond 64 (valuesOf p.byminute)
  hourBitmap := bitsOf beyond 24 (valuesOf p.byhour)
  wdayBitmap :=
    bitsOf beyond 376 (((p.byday.getD []).filterMap id).flatMap (wdayIndices p.frequency))
  nwdayBitmap := bitsOf beyond 376 (((p.byday.getD []).filterMap id).flatMap nwdayIndices)
  mdayBitmap := bitsOf beyond 32 (fromStart p.bymonthday)
  nmdayBitmap := bitsOf beyond 32 (fromEnd p.bymonthday)
  ydayBitmap := bitsOf beyond 368 (fromStart p.byyearday)
  nydayBitmap := bitsOf beyond 368 (fromEnd p.byyearday)
  weekBitmap := bitsOf beyond 56 (fromStart p.byweekno)
  nweekBitmap := bitsOf beyond 56 (fromEnd p.byweekno)
  monthBitmap := bitsOf beyond 16 (fromStart p.bymonth)
  setposBitmap := bitsOf beyond 368 (fromStart p.bysetpos)
  nsetposBitmap := bitsOf beyond 368 (fromEnd p.bysetpos)

/-- The first base: the start with what the parts fix set back. -/
def Rrule.firstBase (rule : Rrule) (itime : IcalTime) : IcalTime :=
  match rule.frequency with
  | .second => itime
  | .minute => rule.zeroSecond itime
  | .hour => rule.zeroSecond (rule.zeroMinute itime)
  | .day => rule.zeroTime itime
  | .week => rule.zeroTime (if rule.byMask .day then rule.toWeekstart itime else itime)
  | .month => rule.zeroTime (if rule.fixesDay then { itime with day := 1 } else itime)
  | .year =>
    let itime := if rule.byMask .month then { itime with month := 1 } else itime
    rule.zeroTime (if rule.fixesDay then { itime with day := 1 } else itime)

/-- What the loop over the times of the first base comes to. -/
inductive First
  | failed
  | found (rule : Rrule) (itime : IcalTime)
  | past (rule : Rrule)

def firstNext (s : Rrule × IcalTime) : Rrule × IcalTime :=
  let v := visit s.1 s.2
  (v.rule, nextRruleItime v.rule v.hintResult v.itime)

def firstOut (s : Rrule × IcalTime) : Option First :=
  if ¬ cmpTime s.2 s.1.nextBaseItime < 0 then some (.past s.1)
  else if pastUntil s.1 s.2 then some .failed
  else if (visit s.1 s.2).accepted ∧ ¬ cmpTime s.2 s.1.instanceItime < 0 then
    some (.found (visit s.1 s.2).rule s.2)
  else none

/-- The rule with its first base. -/
def RruleParts.based (p : RruleParts) (beyond : Bits) : Rrule :=
  let rule := p.rule beyond
  let rule := nextRruleBaseItime { rule with baseItime := rule.firstBase rule.instanceItime }
  if rule.byMask .setpos then calculateSetpos rule else rule

def parseFirst (fuel : ℕ) (beyond : Bits) (p : RruleParts) : Option First :=
  if p.admitted then
    let rule := p.based beyond
    search firstNext firstOut fuel (rule, rule.baseItime)
  else some .failed

/-- The first base has no instance from the start on: the search is called from the next base. -/
def searchFrom (rule : Rrule) : Rrule :=
  { rule with currentInstance := 1, instanceItime := rule.nextBaseItime }

/-- The rule after that search. -/
def afterSearch (rule : Rrule) : Bool × Rrule → Rrule
  | (false, found) =>
    { found with
      totalCount := 1, instanceItime := rule.instanceItime, currentInstance := 1
      bStartExceptional := true }
  | (true, found) =>
    { found with
      realStartItime := found.instanceItime, nextBaseItime := found.baseItime
      baseItime := rule.baseItime, instanceItime := rule.instanceItime, currentInstance := 1
      bStartExceptional := true }

/-- The rule for the first instance, which may be after the start. -/
def afterFound (rule : Rrule) (itime : IcalTime) : Rrule :=
  if cmpTime itime rule.instanceItime > 0 then
    { rule with
      bStartExceptional := true, realStartItime := itime, currentInstance := 1
      nextBaseItime := rule.baseItime }
  else { rule with currentInstance := 1 }

/-- `ical_parse_rrule`, with the turns that are granted to its loops. -/
def parseRrule (fuel : ℕ) (beyond : Bits) (p : RruleParts) : Option (Option Rrule) := do
  match ← parseFirst fuel beyond p with
  | .failed => return none
  | .found rule itime => return some (afterFound rule itime)
  | .past rule => return some (afterSearch rule (← rruleIterate fuel (searchFrom rule)))

end SteepSystem.Icals
