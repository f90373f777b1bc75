import SteepSystem.Icals.RruleSearch

/-!
The times that the search for the next instance of a recurrence rule comes to, base by base: the
search goes through the times of each base and on to the next one.
-/

namespace SteepSystem.Icals

open SteepSystem.Lib.Searches

variable {rule : Rrule} {s : Visit} {untilItime : Option IcalTime} {k i : ℕ}

/-- The rule at the base that comes after so many others. -/
def Rrule.atBase (rule : Rrule) (k : ℕ) : Rrule := Rrule.moved^[k] rule

/-- The first time looked at: after the last instance, or at a base. -/
def Rrule.firstTime (rule : Rrule) : ℕ → IcalTime
  | 0 => nextRruleItime rule none rule.instanceItime
  | k + 1 => (rule.atBase (k + 1)).baseItime

/-- The times that `ical_next_rrule_itime` leads to, from the first one of a base on. -/
def Rrule.candidate (rule : Rrule) (k i : ℕ) : IcalTime :=
  (fun t => nextRruleItime (rule.atBase k) (hintRrule (rule.atBase k) t) t)^[i] (rule.firstTime k)

/-- The times of a base that meet the parts, among the first ones; at the present base there are
those that have been counted. -/
def Rrule.counted (rule : Rrule) (k i : ℕ) : ℤ :=
  (if k = 0 then rule.curSetpos else 0) + (List.range i).countP fun j =>
    hintRrule (rule.atBase k) (rule.candidate k j) = none

/-- All times of a base that meet the parts. -/
def Rrule.total (rule : Rrule) : ℕ → ℤ
  | 0 => rule.setposCount
  | k + 1 => (setposLoop (rule.atBase (k + 1))).getD 0

/-- A time meets all parts, and its position among those of its base is asked for. -/
def Rrule.Meets (rule : Rrule) (k i : ℕ) : Prop :=
  hintRrule (rule.atBase k) (rule.candidate k i) = none ∧
    (rule.byMask .setpos = true → hintSetpos { rule with
      curSetpos := rule.counted k (i + 1), setposCount := rule.total k } = true)

/-- The times up to this one are before the next base. -/
def Rrule.Within (rule : Rrule) (k i : ℕ) : Prop :=
  ∀ j ≤ i, cmpTime (rule.candidate k j) (rule.atBase k).nextBaseItime < 0

lemma atBase_succ (rule : Rrule) (k : ℕ) : rule.atBase (k + 1) = (rule.atBase k).moved :=
  Function.iterate_succ_apply' _ _ _

/-- What a base leaves of a rule. -/
lemma atBase_rule (rule : Rrule) (k : ℕ) : ∃ base next, rule.atBase k =
    { rule with baseItime := base, nextBaseItime := next } := by
  induction k with
  | zero => exact ⟨rule.baseItime, rule.nextBaseItime, rfl⟩
  | succ k ih =>
    obtain ⟨base, next, heq⟩ := ih
    rw [atBase_succ, heq]
    exact ⟨_, _, rfl⟩

lemma candidate_succ (rule : Rrule) (k i : ℕ) : rule.candidate k (i + 1) =
    nextRruleItime (rule.atBase k) (hintRrule (rule.atBase k) (rule.candidate k i))
      (rule.candidate k i) :=
  Function.iterate_succ_apply' _ _ _

lemma counted_succ (rule : Rrule) (k i : ℕ) : rule.counted k (i + 1) = rule.counted k i +
    if hintRrule (rule.atBase k) (rule.candidate k i) = none then 1 else 0 := by
  simp only [Rrule.counted, List.range_succ, List.countP_append, List.countP_singleton]
  split_ifs <;> simp_all [add_assoc]

/-- A state of the search that has so many times of a base behind it. -/
structure Rrule.At (rule : Rrule) (k i : ℕ) (s : Visit) : Prop where
  rule_eq : ∃ curSetpos setposCount, s.rule =
      { rule.atBase k with curSetpos := curSetpos, setposCount := setposCount } ∧
    (rule.byMask .setpos = true → curSetpos = rule.counted k i ∧ setposCount = rule.total k)
  next_eq : nextRruleItime s.rule s.hintResult s.itime = rule.candidate k i

/-- The next time of a base is looked at. -/
lemma visit_at {curSetpos setposCount : ℤ}
    (h : rule.byMask .setpos = true → curSetpos = rule.counted k i ∧ setposCount = rule.total k)
    {r : Rrule}
    (hr : r = { rule.atBase k with curSetpos := curSetpos, setposCount := setposCount }) :
    rule.At k (i + 1) (visit r (rule.candidate k i)) ∧
      ((visit r (rule.candidate k i)).accepted = true ↔ rule.Meets k i) := by
  obtain ⟨base, next, heq⟩ := atBase_rule rule k
  have hmask : r.byMask .setpos = rule.byMask .setpos := by rw [hr, heq]
  have hhint : hintRrule r (rule.candidate k i) =
      hintRrule (rule.atBase k) (rule.candidate k i) := by
    rw [hr]
    rfl
  have hsetpos : hintSetpos { r with curSetpos := r.curSetpos + 1 } = hintSetpos { rule with
      curSetpos := curSetpos + 1, setposCount := setposCount } := by
    rw [hr, heq]
    rfl
  refine ⟨⟨?_, ?_⟩, ?_⟩
  · by_cases hcount : hintRrule r (rule.candidate k i) = none ∧ r.byMask .setpos = true
    · refine ⟨curSetpos + 1, setposCount, ?_, fun hp => ?_⟩
      · rw [visit, if_pos hcount, hr]
      · rw [counted_succ, if_pos (hhint ▸ hcount.1), (h hp).1]
        exact ⟨rfl, (h hp).2⟩
    · refine ⟨curSetpos, setposCount, ?_, fun hp => ?_⟩
      · rw [visit, if_neg hcount, hr]
      · have hne : ¬ hintRrule (rule.atBase k) (rule.candidate k i) = none :=
          fun hn => hcount ⟨hhint.trans hn, hmask.trans hp⟩
        rw [counted_succ, if_neg hne, add_zero]
        exact h hp
  · obtain ⟨curSetpos', hvisit⟩ := visit_rule r (rule.candidate k i)
    rw [hvisit, candidate_succ, hr]
    rfl
  · rw [Rrule.Meets, ← hhint, ← hmask, counted_succ, Visit.accepted]
    by_cases hn : hintRrule r (rule.candidate k i) = none
    · by_cases hp : r.byMask .setpos = true
      · obtain ⟨hcur, htotal⟩ := h (hmask ▸ hp)
        rw [← hhint, if_pos hn, ← hcur, ← htotal, ← hsetpos]
        simp [visit, hn, hp]
      · simp [visit, hn, hp]
    · simp [visit, hn]

/-- A turn of the search within a base. -/
lemma Rrule.At.within (h : rule.At k i s)
    (hlt : cmpTime (rule.candidate k i) (rule.atBase k).nextBaseItime < 0) :
    rule.At k (i + 1) s.advance ∧ (s.advance.accepted = true ↔ rule.Meets k i) := by
  obtain ⟨⟨curSetpos, setposCount, hrule, hcount⟩, hnext⟩ := h
  have hbase : s.rule.nextBaseItime = (rule.atBase k).nextBaseItime := by rw [hrule]
  have hadvance : s.advance = visit s.rule (rule.candidate k i) := by
    unfold Visit.advance
    dsimp only
    rw [hnext, hbase, if_neg (not_le.mpr hlt)]
  rw [hadvance]
  exact visit_at hcount hrule

/-- A turn on to the next base. -/
lemma Rrule.At.past (h : rule.At k i s)
    (hge : ¬ cmpTime (rule.candidate k i) (rule.atBase k).nextBaseItime < 0) :
    rule.At (k + 1) 1 s.advance ∧ (s.advance.accepted = true ↔ rule.Meets (k + 1) 0) := by
  obtain ⟨⟨curSetpos, setposCount, hrule, -⟩, hnext⟩ := h
  have hbase : s.rule.nextBaseItime = (rule.atBase k).nextBaseItime := by rw [hrule]
  have hfirst : rule.candidate (k + 1) 0 = s.rule.nextBaseItime := by
    change (rule.atBase (k + 1)).baseItime = _
    rw [atBase_succ, hbase]
    rfl
  have hadvance : s.advance = visit (rebase s.rule) (rule.candidate (k + 1) 0) := by
    unfold Visit.advance
    dsimp only
    rw [hnext, hfirst, hbase, if_pos (not_lt.mp hge)]
  obtain ⟨base, next, heq⟩ := atBase_rule rule (k + 1)
  have hmoved : s.rule.moved =
      { rule.atBase (k + 1) with curSetpos := curSetpos, setposCount := setposCount } := by
    rw [hrule, atBase_succ]
    rfl
  have hmask : s.rule.moved.byMask .setpos = rule.byMask .setpos := by rw [hmoved, heq]
  rw [hadvance]
  by_cases hp : rule.byMask .setpos = true
  · refine @visit_at rule (k + 1) 0 0 _ (fun _ => ⟨?_, rfl⟩) _ ?_
    · simp [Rrule.counted]
    · rw [rebase, if_pos (hmask.trans hp), hmoved]
      rfl
  · exact visit_at (fun hp' => absurd hp' hp) (by rw [rebase, hmask, if_neg hp, hmoved])

end SteepSystem.Icals
