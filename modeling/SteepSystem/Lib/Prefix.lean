import Mathlib.Tactic

/-!
The first values of a sequence as a list, and lists changed at one place.
-/

namespace SteepSystem.Lib.Prefix

variable {α : Type*}

/-- The first `n` values of `f`. -/
def firstN (f : ℕ → α) (n : ℕ) : List α := (List.range n).map f

@[simp] lemma length_firstN (f : ℕ → α) (n : ℕ) : (firstN f n).length = n := by simp [firstN]

@[simp] lemma firstN_zero (f : ℕ → α) : firstN f 0 = [] := rfl

lemma firstN_succ (f : ℕ → α) (n : ℕ) : firstN f (n + 1) = firstN f n ++ [f n] := by
  simp [firstN, List.range_succ]

lemma getD_firstN (f : ℕ → α) {n i : ℕ} (h : i < n) (a : α) : (firstN f n).getD i a = f i := by
  simp [firstN, List.getD, h]

lemma getD_append_left {l m : List α} {i : ℕ} (h : i < l.length) (a : α) :
    (l ++ m).getD i a = l.getD i a := by
  simp [List.getD, List.getElem?_append_left h]

lemma getD_append_right {l m : List α} {i : ℕ} (h : l.length ≤ i) (a : α) :
    (l ++ m).getD i a = m.getD (i - l.length) a := by
  simp [List.getD, List.getElem?_append_right h]

lemma getD_modify_ne {l : List α} {i j : ℕ} (h : i ≠ j) (f : α → α) (a : α) :
    (l.modify j f).getD i a = l.getD i a := by
  simp [List.getD, Ne.symm h]

lemma getD_modify_eq {l : List α} {j : ℕ} (h : j < l.length) (f : α → α) (a : α) :
    (l.modify j f).getD j a = f (l.getD j a) := by
  simp [List.getD, h]

end SteepSystem.Lib.Prefix
