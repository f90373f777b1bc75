import Mathlib.Tactic

/-!
Relational operators of one comparison: those of a linear order, and those of a comparison that
returns a number below, equal to or above zero.
-/

namespace SteepSystem.Lib

inductive Relop
  | lt
  | le
  | gt
  | ge
  | eq
  | ne
  | memberOfDl
  deriving DecidableEq

variable {α : Type*}

def Relop.test [LinearOrder α] (op : Relop) (a b : α) : Bool :=
  match op with
  | .lt => a < b
  | .le => a ≤ b
  | .gt => b < a
  | .ge => b ≤ a
  | .eq => a = b
  | .ne => a ≠ b
  | .memberOfDl => false

/-- Exactly one of three. -/
def OneOf (p q r : Bool) : Prop := p.toNat + q.toNat + r.toNat = 1

structure Coherent (R : Relop → α → α → Bool) (a b : α) : Prop where
  ne : R .ne a b = !R .eq a b
  le : R .le a b = (R .lt a b || R .eq a b)
  ge : R .ge a b = (R .gt a b || R .eq a b)
  swap : R .gt a b = R .lt b a
  one : OneOf (R .lt a b) (R .eq a b) (R .gt a b)

lemma coherent_test [LinearOrder α] (a b : α) : Coherent Relop.test a b := by
  rcases lt_trichotomy a b with hlt | rfl | hgt
  · refine ⟨?_, ?_, ?_, rfl, ?_⟩
    all_goals simp [Relop.test, OneOf, hlt, hlt.le, hlt.ne, hlt.not_gt, hlt.not_ge]
  · refine ⟨?_, ?_, ?_, rfl, ?_⟩
    all_goals simp [Relop.test, OneOf]
  · refine ⟨?_, ?_, ?_, rfl, ?_⟩
    all_goals simp [Relop.test, OneOf, hgt, hgt.le, hgt.ne', hgt.not_gt, hgt.not_ge]

lemma coherent_of_sign {cmp : α → α → ℤ} {a b : α} (hswap : cmp b a = -cmp a b) :
    Coherent (fun op a b => op.test (cmp a b) 0) a b := by
  obtain ⟨hne, hle, hge, -, hone⟩ := coherent_test (cmp a b) 0
  refine ⟨hne, hle, hge, ?_, hone⟩
  simp [Relop.test, hswap]

end SteepSystem.Lib
