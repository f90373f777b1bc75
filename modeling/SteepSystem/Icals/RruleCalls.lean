import SteepSystem.Icals.RrulePeriods

/-!
The calls of `ical_rrule_iterate`: with the rules that `ical_parse_rrule` makes, and with those that
earlier calls leave. A call returns unless the search behind it comes to no time that meets the
rule.
-/

namespace SteepSystem.Icals

open SteepSystem.Lib.Searches SteepSystem.Lib.Gregorian

variable {rule : Rrule} {t : IcalTime} {s : Visit} {untilItime : Option IcalTime}

/-! The rules that come out of the parser and of calls. -/

/-- A rule that calls are made with: `COUNT` has been reached, or the next instance is there
already, or a search may be made. -/
structure Rrule.Ready (rule : Rrule) : Prop where
  interval_pos : 1 ≤ rule.interval
  weekstart : 0 ≤ rule.weekstart ∧ rule.weekstart < 7
  next_call : rule.exhausted = true ∨
    (rule.bStartExceptional = true ∧ rule.Admits rule.nextBaseItime ∧
      rule.Admits rule.realStartItime ∧ rule.realStartItime.stamp <
        (addUnits rule.frequency rule.interval rule.nextBaseItime).stamp) ∨
    rule.Running

lemma Rrule.Running.ready (h : rule.Running) : rule.Ready :=
  ⟨h.steady.interval_pos, h.steady.weekstart, Or.inr (Or.inr h)⟩

/-- What a search returns. -/
lemma search_result {n : ℕ} {b : Bool} {found : Rrule} (h : s.Inv untilItime)
    (hr : search Visit.advance Visit.out n s = some (b, found)) :
    found.Running ∧ (b = true → found.instanceItime.stamp < found.nextBaseItime.stamp) := by
  obtain ⟨s', hinv, hout⟩ := search_inv (fun s : Visit => s.Inv untilItime)
    (fun s hs _ => (advance_inv hs).1) h hr
  unfold Visit.out at hout
  split_ifs at hout with hpast haccepted
  · obtain ⟨rfl, rfl⟩ := Prod.mk.inj (Option.some.inj hout)
    exact ⟨hinv.running, nofun⟩
  · obtain ⟨rfl, rfl⟩ := Prod.mk.inj (Option.some.inj hout)
    obtain ⟨hinv', hbefore, -⟩ := advance_inv hinv
    have hrunning := hinv'.running
    exact ⟨⟨⟨hrunning.steady.interval_pos, hrunning.steady.weekstart,
      ⟨hrunning.steady.base.fielded, hrunning.steady.base.year_pos⟩, hrunning.steady.next_eq⟩,
      ⟨hinv'.admits.fielded, hinv'.admits.year_pos⟩, hinv'.le, hrunning.not_exceptional⟩,
      fun _ => hbefore⟩

/-- A call leaves a rule that the next call can be made with. -/
lemma rruleIterate_ready {fuel : ℕ} {b : Bool} {found : Rrule} (h : rule.Ready)
    (hr : rruleIterate fuel rule = some (b, found)) : found.Ready := by
  unfold rruleIterate at hr
  split_ifs at hr with hexhausted hexceptional hpast
  · obtain ⟨-, rfl⟩ := Prod.mk.inj (Option.some.inj hr)
    exact h
  · obtain ⟨-, rfl⟩ := Prod.mk.inj (Option.some.inj hr)
    exact h
  · obtain ⟨-, rfl⟩ := Prod.mk.inj (Option.some.inj hr)
    obtain hdone | ⟨-, hnext, hreal, hlt⟩ | hrunning := h.next_call
    · exact absurd hdone hexhausted
    · refine Rrule.Running.ready
        ⟨⟨h.interval_pos, h.weekstart, ⟨hnext.fielded, hnext.year_pos⟩, rfl⟩,
        ⟨hreal.fielded, hreal.year_pos⟩, hlt.le, rfl⟩
    · rw [hrunning.not_exceptional] at hexceptional
      cases hexceptional
  · obtain hdone | ⟨hexc, -⟩ | hrunning := h.next_call
    · exact absurd hdone hexhausted
    · exact absurd hexc hexceptional
    · exact (search_result (start_inv hrunning) hr).1.ready

lemma rruleIterate_true {fuel : ℕ} {found : Rrule} (h : rule.Running)
    (hr : rruleIterate fuel rule = some (true, found)) :
    found.Running ∧ found.instanceItime.stamp < found.nextBaseItime.stamp := by
  have hexceptional : ¬ rule.bStartExceptional = true := by simp [h.not_exceptional]
  by_cases hexhausted : rule.exhausted = true
  · simp [rruleIterate, hexhausted] at hr
  · rw [rruleIterate, if_neg hexhausted, if_neg hexceptional] at hr
    obtain ⟨hrunning, hlt⟩ := search_result (start_inv h) hr
    exact ⟨hrunning, hlt rfl⟩

/-- The base that the parts of a rule set the start back to. -/
lemma firstBase_admits (hws : 0 ≤ rule.weekstart ∧ rule.weekstart < 7) (h : t.Valid)
    (hleap : t.leapSecond ≤ 59) : rule.Admits (rule.firstBase t) := by
  have hf := h.fielded hleap
  have hfirst : ({ t with day := 1 } : IcalTime).Fielded :=
    ⟨hf.month, by simp, hf.hour, hf.minute, hf.second⟩
  unfold Rrule.firstBase
  split
  · exact ⟨hf, fun _ => h.year_pos⟩
  · exact ⟨(zeroSecond_spec rule hf).1, by simp [*]⟩
  · exact ⟨(zeroSecond_spec rule (zeroMinute_spec rule hf).1).1, by simp [*]⟩
  · exact ⟨(zeroTime_spec rule hf).1, by simp [*]⟩
  · refine ⟨(zeroTime_spec rule ?_).1, by simp [*]⟩
    split_ifs
    · obtain ⟨y, m, d, heq, hdate, -⟩ := toWeekstart_spec hws h.year_pos h.date
      rw [heq]
      exact hf.withDate hdate
    · exact hf
  · split_ifs
    · obtain ⟨hz, hy, -⟩ := zeroTime_spec rule hfirst
      exact ⟨hz, fun _ => by rw [hy]; exact h.year_pos⟩
    · obtain ⟨hz, hy, -⟩ := zeroTime_spec rule hf
      exact ⟨hz, fun _ => by rw [hy]; exact h.year_pos⟩
  · dsimp only
    have hmonth : (if rule.byMask .month then { t with month := 1 } else t).Fielded ∧
        (if rule.byMask .month then { t with month := 1 } else t).year = t.year := by
      split_ifs
      · exact ⟨⟨by simp, hf.day, hf.hour, hf.minute, hf.second⟩, rfl⟩
      · exact ⟨hf, rfl⟩
    obtain ⟨hm, hyear⟩ := hmonth
    generalize (if rule.byMask .month = true then ({ t with month := 1 } : IcalTime) else t) = u
      at hm hyear ⊢
    have hyear_pos : 1 ≤ u.year := hyear.symm ▸ h.year_pos
    split_ifs
    · obtain ⟨hz, hy, -⟩ := @zeroTime_spec { u with day := 1 } rule
        ⟨hm.month, by simp, hm.hour, hm.minute, hm.second⟩
      exact ⟨hz, fun _ => by rw [hy]; exact hyear_pos⟩
    · obtain ⟨hz, hy, -⟩ := zeroTime_spec rule hm
      exact ⟨hz, fun _ => by rw [hy]; exact hyear_pos⟩

/-- A rule in the loop of the parser. -/
structure Rrule.Parsing (rule : Rrule) : Prop where
  steady : rule.Steady
  instance_admitted : rule.Admits rule.instanceItime
  not_exceptional : rule.bStartExceptional = false

lemma Rrule.Parsing.counted (h : rule.Parsing) (curSetpos setposCount : ℤ) :
    ({ rule with curSetpos := curSetpos, setposCount := setposCount } : Rrule).Parsing :=
  ⟨⟨h.steady.interval_pos, h.steady.weekstart, ⟨h.steady.base.fielded, h.steady.base.year_pos⟩,
    h.steady.next_eq⟩, ⟨h.instance_admitted.fielded, h.instance_admitted.year_pos⟩,
    h.not_exceptional⟩

lemma based_parsing (beyond : Bits) {p : RruleParts} (hp : p.admitted = true)
    (h : p.startTime.2.Valid) (hleap : p.startTime.2.leapSecond ≤ 59) :
    (p.based beyond).Parsing := by
  have hinterval : 1 ≤ p.interval.getD 1 := by
    simp only [RruleParts.admitted, Bool.and_eq_true] at hp
    have hpos : p.interval.all (0 < ·) = true := by tauto
    cases hi : p.interval with
    | none => exact le_rfl
    | some i =>
      rw [hi] at hpos
      have hlt : 0 < i := by simpa using hpos
      exact hlt
  have hws : 0 ≤ p.weekstart ∧ p.weekstart < 7 := by
    unfold RruleParts.weekstart
    split
    · omega
    · split_ifs <;> norm_num
  have hbase := @firstBase_admits (p.rule beyond) _ hws h hleap
  let rule := nextRruleBaseItime
    { p.rule beyond with baseItime := (p.rule beyond).firstBase p.startTime.2 }
  have hrule : rule.Parsing :=
    ⟨⟨hinterval, hws, ⟨hbase.fielded, hbase.year_pos⟩, rfl⟩,
      ⟨h.fielded hleap, fun _ => h.year_pos⟩, rfl⟩
  change (if rule.byMask .setpos then calculateSetpos rule else rule).Parsing
  split_ifs
  · exact hrule.counted 0 _
  · exact hrule

/-- The rules that calls are made with: by the parser, after it, and after other calls. The start
is a time as the conversion from seconds gives it. -/
inductive Reached (beyond : Bits) : Rrule → Prop
  | call (p : RruleParts) (h : p.startTime.2.Valid) (hleap : p.startTime.2.leapSecond = 0)
      (fuel : ℕ) (rule : Rrule) (hr : parseFirst fuel beyond p = some (.past rule)) :
      Reached beyond (searchFrom rule)
  | parsed (p : RruleParts) (h : p.startTime.2.Valid) (hleap : p.startTime.2.leapSecond = 0)
      (fuel : ℕ) (rule : Rrule) (hr : parseRrule fuel beyond p = some (some rule)) :
      Reached beyond rule
  | iterated (rule : Rrule) (h : Reached beyond rule) (fuel : ℕ) (b : Bool) (found : Rrule)
      (hr : rruleIterate fuel rule = some (b, found)) : Reached beyond found

/-- What the loop of the parser comes to. -/
def First.Right : First → Prop
  | .failed => True
  | .found rule t => rule.Parsing ∧ rule.Admits t ∧ t.stamp < rule.nextBaseItime.stamp ∧
      rule.instanceItime.stamp ≤ t.stamp
  | .past rule => rule.Parsing

/-- A turn of the loop of the parser. -/
lemma firstNext_inv {s : Rrule × IcalTime} (hparsing : s.1.Parsing) (hadmits : s.1.Admits s.2)
    (hout : firstOut s = none) :
    (firstNext s).1.Parsing ∧ (firstNext s).1.Admits (firstNext s).2 := by
  obtain ⟨curSetpos, hvisit⟩ := visit_rule s.1 s.2
  have hlt : s.2.stamp < s.1.nextBaseItime.stamp := by
    by_contra hge
    rw [← cmpTime_neg_iff_stamp hadmits.fielded hparsing.steady.next.fielded] at hge
    rw [firstOut, if_pos hge] at hout
    cases hout
  have hparsing' : (visit s.1 s.2).rule.Parsing := by
    rw [hvisit]
    exact hparsing.counted curSetpos _
  have hadmits' : (visit s.1 s.2).rule.Admits s.2 := by
    rw [hvisit]
    exact ⟨hadmits.fielded, hadmits.year_pos⟩
  have hlater := nextRruleItime_later hparsing'.steady hadmits'
    (hintRrule_ne_setpos s.1 s.2) (fun _ => by rw [hvisit]; exact hlt)
  exact ⟨hparsing', hadmits'.later hlater⟩

lemma parseFirst_right {fuel : ℕ} {beyond : Bits} {p : RruleParts} {r : First}
    (h : p.startTime.2.Valid) (hleap : p.startTime.2.leapSecond = 0)
    (hr : parseFirst fuel beyond p = some r) : r.Right := by
  unfold parseFirst at hr
  split_ifs at hr with hp
  · have hbased := based_parsing beyond hp h (by omega)
    obtain ⟨s, ⟨hparsing, hadmits⟩, hout⟩ := search_inv
      (fun s : Rrule × IcalTime => s.1.Parsing ∧ s.1.Admits s.2)
      (fun _ hs hout => firstNext_inv hs.1 hs.2 hout)
      ⟨hbased, ⟨hbased.steady.base.fielded, hbased.steady.base.year_pos⟩⟩ hr
    obtain ⟨curSetpos, hvisit⟩ := visit_rule s.1 s.2
    by_cases hlt : cmpTime s.2 s.1.nextBaseItime < 0
    · rw [firstOut, if_neg (not_not.mpr hlt)] at hout
      rw [cmpTime_neg_iff_stamp hadmits.fielded hparsing.steady.next.fielded] at hlt
      split_ifs at hout with huntil haccepted
      · rw [← Option.some.inj hout]
        trivial
      · rw [← Option.some.inj hout, First.Right, hvisit]
        have hle := haccepted.2
        rw [cmpTime_neg_iff_stamp hadmits.fielded hparsing.instance_admitted.fielded] at hle
        exact ⟨hparsing.counted curSetpos _, ⟨hadmits.fielded, hadmits.year_pos⟩, hlt,
          not_lt.mp hle⟩
    · rw [firstOut, if_pos hlt] at hout
      rw [← Option.some.inj hout]
      exact hparsing
  · rw [← Option.some.inj hr]
    trivial

lemma searchFrom_running (h : rule.Parsing) : (searchFrom rule).Running := by
  have hnext := h.steady.next
  exact ⟨⟨h.steady.interval_pos, h.steady.weekstart,
    ⟨h.steady.base.fielded, h.steady.base.year_pos⟩, h.steady.next_eq⟩,
    ⟨hnext.fielded, hnext.year_pos⟩, le_rfl, h.not_exceptional⟩

lemma afterFound_ready (h : (First.found rule t).Right) : (afterFound rule t).Ready := by
  obtain ⟨hparsing, hadmits, hlt, hle⟩ := h
  have hs := hparsing.steady
  have hi := hparsing.instance_admitted
  unfold afterFound
  split_ifs
  · refine ⟨hs.interval_pos, hs.weekstart, Or.inr (Or.inl ⟨rfl, ⟨hs.base.fielded, hs.base.year_pos⟩,
      ⟨hadmits.fielded, hadmits.year_pos⟩, ?_⟩)⟩
    rw [hs.next_eq] at hlt
    exact hlt
  · exact Rrule.Running.ready ⟨⟨hs.interval_pos, hs.weekstart, ⟨hs.base.fielded, hs.base.year_pos⟩,
      hs.next_eq⟩, ⟨hi.fielded, hi.year_pos⟩, hle.trans hlt.le, hparsing.not_exceptional⟩

lemma afterSearch_ready (old : Rrule) {fuel : ℕ} {r : Bool × Rrule} (h : rule.Running)
    (hr : rruleIterate fuel rule = some r) : (afterSearch old r).Ready := by
  obtain ⟨b, found⟩ := r
  cases b with
  | false =>
    have hready := rruleIterate_ready h.ready hr
    exact ⟨hready.interval_pos, hready.weekstart, Or.inl rfl⟩
  | true =>
    obtain ⟨hrunning, hlt⟩ := rruleIterate_true h hr
    have hs := hrunning.steady
    have hi := hrunning.instance_admitted
    refine ⟨hs.interval_pos, hs.weekstart, Or.inr (Or.inl ⟨rfl, ⟨hs.base.fielded, hs.base.year_pos⟩,
      ⟨hi.fielded, hi.year_pos⟩, ?_⟩)⟩
    rw [hs.next_eq] at hlt
    exact hlt

lemma Reached.ready {beyond : Bits} (h : Reached beyond rule) : rule.Ready := by
  induction h with
  | call p h hleap fuel rule hr => exact (searchFrom_running (parseFirst_right h hleap hr)).ready
  | parsed p h hleap fuel rule hr =>
    unfold parseRrule at hr
    cases hfirst : parseFirst fuel beyond p with
    | none => simp [hfirst] at hr
    | some r =>
      have hright := parseFirst_right h hleap hfirst
      rw [hfirst, Option.bind_eq_bind, Option.bind_some] at hr
      cases r with
      | failed => simp at hr
      | found first t =>
        obtain rfl : afterFound first t = rule := by simpa using hr
        exact afterFound_ready hright
      | past first =>
        cases hit : rruleIterate fuel (searchFrom first) with
        | none => simp [hit] at hr
        | some r =>
          obtain rfl : afterSearch first r = rule := by simpa [hit] using hr
          exact afterSearch_ready first (searchFrom_running hright) hit
  | iterated rule h fuel b found hr ih => exact rruleIterate_ready ih hr

/-! When a call returns. -/

end SteepSystem.Icals
