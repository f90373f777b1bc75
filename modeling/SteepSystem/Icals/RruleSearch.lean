import SteepSystem.Icals.RruleSteps

/-!
The search for the next instance of a recurrence rule. It goes from time to later time, so with an
`UNTIL` it ends; without one nothing but a time that meets the rule ends it.
-/

namespace SteepSystem.Icals

open SteepSystem.Lib.Searches

variable {rule : Rrule} {t : IcalTime}

/-- A rule that a search may be made from. -/
structure Rrule.Running (rule : Rrule) : Prop where
  steady : rule.Steady
  instance_admitted : rule.Admits rule.instanceItime
  instance_le : rule.instanceItime.stamp ≤ rule.nextBaseItime.stamp
  not_exceptional : rule.bStartExceptional = false

lemma Rrule.Running.counted (h : rule.Running) (curSetpos setposCount : ℤ) :
    ({ rule with curSetpos := curSetpos, setposCount := setposCount } : Rrule).Running :=
  ⟨⟨h.steady.interval_pos, h.steady.weekstart, ⟨h.steady.base.fielded, h.steady.base.year_pos⟩,
    h.steady.next_eq⟩, ⟨h.instance_admitted.fielded, h.instance_admitted.year_pos⟩, h.instance_le,
    h.not_exceptional⟩

lemma steady_moved (h : rule.Steady) : rule.moved.Steady :=
  ⟨h.interval_pos, h.weekstart, ⟨h.next.fielded, h.next.year_pos⟩, rfl⟩

lemma Rrule.Running.moved (h : rule.Running) : rule.moved.Running := by
  have hs := steady_moved h.steady
  exact ⟨hs, ⟨h.instance_admitted.fielded, h.instance_admitted.year_pos⟩,
    h.instance_le.trans hs.next_later.lt.le, h.not_exceptional⟩

/-- What looking at a time leaves of a rule. -/
lemma visit_rule (rule : Rrule) (t : IcalTime) :
    ∃ curSetpos, (visit rule t).rule = { rule with curSetpos := curSetpos } := by
  unfold visit
  dsimp only
  split_ifs
  · exact ⟨_, rfl⟩
  · exact ⟨rule.curSetpos, rfl⟩

lemma rebase_rule (rule : Rrule) : ∃ curSetpos setposCount, rebase rule =
    { rule.moved with curSetpos := curSetpos, setposCount := setposCount } := by
  unfold rebase calculateSetpos
  split_ifs
  · exact ⟨_, _, rfl⟩
  · exact ⟨rule.moved.curSetpos, rule.moved.setposCount, rfl⟩

/-- A state that a search comes to, with the end of the rule. -/
structure Visit.Inv (untilItime : Option IcalTime) (s : Visit) : Prop where
  running : s.rule.Running
  admits : s.rule.Admits s.itime
  hint_ne : s.hintResult ≠ some .setpos
  until_eq : s.rule.untilItime = untilItime
  le : s.itime.stamp ≤ s.rule.nextBaseItime.stamp
  lt_of_hint : s.hintResult ≠ none → s.itime.stamp < s.rule.nextBaseItime.stamp

/-- The time is before the next base, as it is from the first turn on. -/
def Visit.Before (s : Visit) : Prop := s.itime.stamp < s.rule.nextBaseItime.stamp

variable {s : Visit} {untilItime : Option IcalTime}

lemma visit_inv (h : rule.Running) (ht : rule.Admits t) (hu : rule.untilItime = untilItime)
    (hlt : t.stamp < rule.nextBaseItime.stamp) :
    (visit rule t).Inv untilItime ∧ (visit rule t).Before := by
  obtain ⟨curSetpos, hrule⟩ := visit_rule rule t
  have hrunning : (visit rule t).rule.Running := by
    rw [hrule]
    exact h.counted curSetpos rule.setposCount
  have hnext : (visit rule t).rule.nextBaseItime = rule.nextBaseItime := by rw [hrule]
  have hbefore : t.stamp < (visit rule t).rule.nextBaseItime.stamp := by rwa [hnext]
  have hadmits : (visit rule t).rule.Admits t := by
    rw [hrule]
    exact ⟨ht.fielded, ht.year_pos⟩
  exact ⟨⟨hrunning, hadmits, hintRrule_ne_setpos rule t, by rw [hrule]; exact hu, hbefore.le,
    fun _ => hbefore⟩, hbefore⟩

lemma Visit.Inv.later (h : s.Inv untilItime) :
    Later s.itime (nextRruleItime s.rule s.hintResult s.itime) :=
  nextRruleItime_later h.running.steady h.admits h.hint_ne h.lt_of_hint

/-- A turn leads to a later time before the next base. -/
lemma advance_inv (h : s.Inv untilItime) : s.advance.Inv untilItime ∧ s.advance.Before ∧
    (s.Before → s.itime.stamp < s.advance.itime.stamp) := by
  have hlater := h.later
  have hnext := h.running.steady.next
  unfold Visit.advance
  dsimp only
  split_ifs with hge
  · obtain ⟨curSetpos, setposCount, hrule⟩ := rebase_rule s.rule
    have hmoved := h.running.moved
    rw [hrule]
    obtain ⟨hinv, hbefore⟩ := visit_inv (hmoved.counted curSetpos setposCount)
      ⟨hnext.fielded, hnext.year_pos⟩ h.until_eq hmoved.steady.next_later.lt
    exact ⟨hinv, hbefore, id⟩
  · rw [not_le, cmpTime_neg_iff_stamp hlater.fielded hnext.fielded] at hge
    obtain ⟨hinv, hbefore⟩ := visit_inv h.running (h.admits.later hlater) h.until_eq hge
    exact ⟨hinv, hbefore, fun _ => hlater.lt⟩

lemma start_inv (h : rule.Running) : rule.start.Inv rule.untilItime :=
  ⟨h, h.instance_admitted, by simp [Rrule.start], rfl, h.instance_le, by simp [Rrule.start]⟩

end SteepSystem.Icals
