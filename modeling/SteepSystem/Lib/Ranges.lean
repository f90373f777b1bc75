import Mathlib.Tactic
import Mathlib.Order.Basic

/-!
Lists of closed ranges over a linear order, the set such a list covers, and the lists that
are in ascending order without overlap.
-/

namespace SteepSystem.Lib.Ranges

/-- A closed range, both ends included. -/
@[ext] structure Range (α : Type*) where
  low : α
  high : α
  deriving DecidableEq, Repr

variable {α : Type*} [LinearOrder α]

/-- `v` lies between the two ends. -/
def Range.Has (r : Range α) (v : α) : Prop := r.low ≤ v ∧ v ≤ r.high

instance (r : Range α) (v : α) : Decidable (r.Has v) := inferInstanceAs (Decidable (_ ∧ _))

/-- Some range of the list has `v`. -/
def Covers (l : List (Range α)) (v : α) : Prop := ∃ r ∈ l, r.Has v

instance (l : List (Range α)) (v : α) : Decidable (Covers l v) :=
  inferInstanceAs (Decidable (∃ r ∈ l, r.Has v))

/-- Every range is inhabited, and each one ends before the next begins. -/
def Ascending (l : List (Range α)) : Prop :=
  (∀ r ∈ l, r.low ≤ r.high) ∧ l.Pairwise fun a b => a.high < b.low

instance (l : List (Range α)) : Decidable (Ascending l) :=
  inferInstanceAs (Decidable (_ ∧ _))

@[simp] lemma covers_nil (v : α) : ¬ Covers ([] : List (Range α)) v := by simp [Covers]

@[simp] lemma covers_cons (r : Range α) (l : List (Range α)) (v : α) :
    Covers (r :: l) v ↔ r.Has v ∨ Covers l v := by simp [Covers]

@[simp] lemma covers_append (l m : List (Range α)) (v : α) :
    Covers (l ++ m) v ↔ Covers l v ∨ Covers m v := by
  simp [Covers, or_and_right, exists_or]

@[simp] lemma covers_reverse (l : List (Range α)) (v : α) :
    Covers l.reverse v ↔ Covers l v := by simp [Covers]

@[simp] lemma ascending_nil : Ascending ([] : List (Range α)) := by simp [Ascending]

@[simp] lemma ascending_cons (r : Range α) (l : List (Range α)) :
    Ascending (r :: l) ↔ r.low ≤ r.high ∧ (∀ b ∈ l, r.high < b.low) ∧ Ascending l := by
  simp only [Ascending, List.forall_mem_cons, List.pairwise_cons]
  tauto

@[simp] lemma ascending_append (l m : List (Range α)) :
    Ascending (l ++ m) ↔
      Ascending l ∧ Ascending m ∧ ∀ a ∈ l, ∀ b ∈ m, a.high < b.low := by
  simp only [Ascending, List.forall_mem_append, List.pairwise_append]
  tauto

lemma ascending_reverse_cons (r : Range α) (l : List (Range α)) :
    Ascending (r :: l).reverse ↔
      Ascending l.reverse ∧ r.low ≤ r.high ∧ ∀ a ∈ l, a.high < r.low := by
  simp

lemma Ascending.le {l : List (Range α)} (h : Ascending l) {r : Range α} (hr : r ∈ l) :
    r.low ≤ r.high := h.1 r hr

end SteepSystem.Lib.Ranges
