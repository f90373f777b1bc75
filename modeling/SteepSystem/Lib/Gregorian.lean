import Mathlib.Tactic
import Mathlib.Algebra.BigOperators.Intervals

/-!
The proleptic Gregorian calendar: leap years, the lengths of months and years, and the number of
a day, counted from 1 January of the year 1. A date is determined by its day number.
-/

namespace SteepSystem.Lib.Gregorian

def IsLeap (y : ℤ) : Prop := (4 ∣ y ∧ ¬ 100 ∣ y) ∨ 400 ∣ y

instance : DecidablePred IsLeap := fun _ => inferInstanceAs (Decidable (_ ∨ _))

def yearLength (y : ℤ) : ℤ := if IsLeap y then 366 else 365

def monthLength (y m : ℤ) : ℤ :=
  if m = 2 then (if IsLeap y then 29 else 28)
  else if m = 4 ∨ m = 6 ∨ m = 9 ∨ m = 11 then 30
  else 31

/-- The days before 1 January of the year. -/
def yearStart (y : ℤ) : ℤ := 365 * (y - 1) + (y - 1) / 4 - (y - 1) / 100 + (y - 1) / 400

/-- The days of the year before the month. -/
def monthStart (y m : ℤ) : ℤ := ∑ k ∈ Finset.range (m.toNat - 1), monthLength y (k + 1)

/-- The day of the year. -/
def ordinal (y m d : ℤ) : ℤ := monthStart y m + d

/-- The number of the day; 1 January of the year 1, a Monday, has the number one. -/
def number (y m d : ℤ) : ℤ := yearStart y + ordinal y m d

/-- The days of the week from Sunday, which is 0, on. -/
def weekday (n : ℤ) : ℤ := n % 7

structure IsDate (y m d : ℤ) : Prop where
  month_pos : 1 ≤ m
  month_le : m ≤ 12
  day_pos : 1 ≤ d
  day_le : d ≤ monthLength y m

instance (y m d : ℤ) : Decidable (IsDate y m d) :=
  decidable_of_iff (1 ≤ m ∧ m ≤ 12 ∧ 1 ≤ d ∧ d ≤ monthLength y m)
    ⟨fun ⟨h1, h2, h3, h4⟩ => ⟨h1, h2, h3, h4⟩, fun ⟨h1, h2, h3, h4⟩ => ⟨h1, h2, h3, h4⟩⟩

lemma yearLength_eq (y : ℤ) : yearLength y = 365 ∨ yearLength y = 366 := by
  unfold yearLength
  split_ifs <;> simp

lemma monthLength_pos (y m : ℤ) : 0 < monthLength y m := by
  unfold monthLength
  split_ifs <;> norm_num

/-- The fewest and the most days of a month. -/
lemma monthLength_bounds (y m : ℤ) : 28 ≤ monthLength y m ∧ monthLength y m ≤ 31 := by
  unfold monthLength
  split_ifs <;> norm_num

lemma yearStart_succ (y : ℤ) : yearStart (y + 1) = yearStart y + yearLength y := by
  unfold yearStart yearLength IsLeap
  split_ifs <;> omega

@[simp] lemma monthStart_one (y : ℤ) : monthStart y 1 = 0 := rfl

lemma monthStart_succ (y : ℤ) {m : ℤ} (hm : 1 ≤ m) :
    monthStart y (m + 1) = monthStart y m + monthLength y m := by
  obtain ⟨k, rfl⟩ : ∃ k : ℕ, m = k + 1 := ⟨(m - 1).toNat, by omega⟩
  have h1 : ((k : ℤ) + 1 + 1).toNat - 1 = k + 1 := by omega
  have h2 : ((k : ℤ) + 1).toNat - 1 = k := by omega
  rw [monthStart, monthStart, h1, h2, Finset.sum_range_succ]

/-- The year ends with its last month. -/
lemma monthStart_thirteen (y : ℤ) : monthStart y 13 = yearLength y := by
  have h : ((13 : ℤ).toNat - 1) = 12 := rfl
  rw [monthStart, yearLength, h]
  by_cases hl : IsLeap y <;> simp [hl, Finset.sum_range_succ, monthLength]

lemma monthStart_lt (y : ℤ) {m m' : ℤ} (hm : 1 ≤ m) (h : m < m') :
    monthStart y (m + 1) ≤ monthStart y m' := by
  refine Finset.sum_le_sum_of_subset_of_nonneg ?_ fun k _ _ => (monthLength_pos _ _).le
  intro k hk
  rw [Finset.mem_range] at hk ⊢
  omega

lemma yearStart_mono {y y' : ℤ} (h : y ≤ y') : yearStart y ≤ yearStart y' := by
  unfold yearStart
  omega

variable {y m d y' m' d' : ℤ}

lemma IsDate.ordinal_pos (h : IsDate y m d) : 1 ≤ ordinal y m d := by
  have := h.day_pos
  have hs : 0 ≤ monthStart y m := Finset.sum_nonneg fun k _ => (monthLength_pos _ _).le
  unfold ordinal
  omega

/-- A day of the month comes before the next month begins. -/
lemma IsDate.ordinal_le_next (h : IsDate y m d) : ordinal y m d ≤ monthStart y (m + 1) := by
  have := h.day_le
  rw [monthStart_succ y h.month_pos]
  unfold ordinal
  omega

lemma IsDate.ordinal_le (h : IsDate y m d) : ordinal y m d ≤ yearLength y := by
  have hm := h.month_pos
  calc ordinal y m d ≤ monthStart y (m + 1) := h.ordinal_le_next
    _ ≤ monthStart y 13 := by
      rcases h.month_le.lt_or_eq with hlt | rfl
      · rcases Int.lt_or_eq_of_le (Int.add_one_le_of_lt hlt) with h12 | h12
        · exact (monthStart_lt y (by omega) (by omega : m < 13))
        · rw [h12]
          exact le_of_le_of_eq (le_add_of_nonneg_right (monthLength_pos y 12).le)
            (monthStart_succ y (by norm_num)).symm
      · exact le_rfl
    _ = yearLength y := monthStart_thirteen y

/-- The first day of the week of a day. -/
def weekStart (first n : ℤ) : ℤ := n - (n - first) % 7

/-- The first day of the week with 4 January in it. -/
def firstWeek (first y : ℤ) : ℤ := weekStart first (yearStart y + 4)

def weeks (first y : ℤ) : ℤ := (firstWeek first (y + 1) - firstWeek first y) / 7

/-- The year that the week of a day of the year belongs to. -/
def weekYear (first y n : ℤ) : ℤ :=
  if n < firstWeek first y then y - 1
  else if firstWeek first (y + 1) ≤ n then y + 1
  else y

/-- The number of the week of a day of the year. -/
def week (first y n : ℤ) : ℤ := (n - firstWeek first (weekYear first y n)) / 7 + 1

/-- The first week of a year has four days of it at least, and the week before has three at
most. -/
lemma firstWeek_bounds (first y : ℤ) :
    yearStart y - 2 ≤ firstWeek first y ∧ firstWeek first y ≤ yearStart y + 4 := by
  unfold firstWeek weekStart
  omega

lemma firstWeek_emod (first y : ℤ) : firstWeek first y % 7 = first % 7 := by
  unfold firstWeek weekStart
  omega

/-- A year has 52 weeks or 53. -/
lemma firstWeek_succ (first y : ℤ) :
    firstWeek first (y + 1) = firstWeek first y + 7 * weeks first y ∧
      (weeks first y = 52 ∨ weeks first y = 53) := by
  have h0 := firstWeek_bounds first y
  have h1 := firstWeek_bounds first (y + 1)
  have hlen := yearLength_eq y
  have hm0 := firstWeek_emod first y
  have hm1 := firstWeek_emod first (y + 1)
  rw [yearStart_succ] at h1
  unfold weeks
  omega

/-- The years of 53 weeks begin on the fourth day of a week or, leap years, on the third. -/
theorem weeks_eq_53_iff (first y : ℤ) : weeks first y = 53 ↔
    (yearStart y + 1 - first) % 7 = 3 ∨ IsLeap y ∧ (yearStart y + 1 - first) % 7 = 2 := by
  have hsucc := yearStart_succ y
  unfold weeks firstWeek weekStart
  rw [hsucc, yearLength]
  split_ifs with h
  · simp only [h, true_and]
    omega
  · simp only [h, false_and, or_false]
    omega

end SteepSystem.Lib.Gregorian
