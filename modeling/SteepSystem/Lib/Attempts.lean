import Mathlib.Tactic

/-!
A do-while loop whose passes may fail. What a pass does depends on its number only; it gives a
value and whether it was the last one.
-/

namespace SteepSystem.Lib.Attempts

variable {ε α : Type*} {attempt : ℕ → Except ε (α × Bool)}

/-- The values of the passes from `i` on, and how the loop ends. -/
def run (attempt : ℕ → Except ε (α × Bool)) : ℕ → ℕ → Option (List α × Except ε Unit)
  | 0, _ => none
  | fuel + 1, i =>
    match attempt i with
    | .error e => some ([], .error e)
    | .ok (a, true) => some ([a], .ok ())
    | .ok (a, false) => (run attempt fuel (i + 1)).map fun r => (a :: r.1, r.2)

/-- The passes from `i` on give these values, and none of them is the last one. -/
def Passes (attempt : ℕ → Except ε (α × Bool)) (i : ℕ) (values : List α) : Prop :=
  ∀ j a, values[j]? = some a → attempt (i + j) = .ok (a, false)

lemma passes_nil (attempt : ℕ → Except ε (α × Bool)) (i : ℕ) : Passes attempt i [] := by
  simp [Passes]

lemma passes_cons {i : ℕ} {a : α} {values : List α} :
    Passes attempt i (a :: values) ↔
      attempt i = .ok (a, false) ∧ Passes attempt (i + 1) values := by
  constructor
  · intro h
    refine ⟨h 0 a rfl, fun j b hb => ?_⟩
    have := h (j + 1) b hb
    rwa [show i + (j + 1) = i + 1 + j by omega] at this
  · rintro ⟨h, hs⟩ j b hb
    cases j with
    | zero =>
      cases hb
      exact h
    | succ j =>
      rw [show i + (j + 1) = i + 1 + j by omega]
      exact hs j b hb

/-- A loop that ends has made some passes, and then a last one or one that failed. -/
theorem run_eq_some {fuel i : ℕ} {values : List α} {result : Except ε Unit}
    (h : run attempt fuel i = some (values, result)) :
    (∃ before a, values = before ++ [a] ∧ result = .ok () ∧ Passes attempt i before ∧
        attempt (i + before.length) = .ok (a, true)) ∨
      ∃ e, result = .error e ∧ Passes attempt i values ∧
        attempt (i + values.length) = .error e := by
  induction fuel generalizing i values with
  | zero => cases h
  | succ fuel ih =>
    unfold run at h
    split at h
    · rename_i e he
      cases h
      exact .inr ⟨e, rfl, passes_nil attempt i, he⟩
    · rename_i a ha
      cases h
      exact .inl ⟨[], a, rfl, rfl, passes_nil attempt i, ha⟩
    · rename_i a ha
      obtain ⟨⟨values', result'⟩, hr, heq⟩ := Option.map_eq_some_iff.mp h
      cases heq
      rcases ih hr with ⟨before, b, rfl, hres, hpass, hb⟩ | ⟨e, hres, hpass, he⟩
      · refine .inl ⟨a :: before, b, rfl, hres, passes_cons.mpr ⟨ha, hpass⟩, ?_⟩
        rw [← hb, List.length_cons]
        congr 1
        omega
      · refine .inr ⟨e, hres, passes_cons.mpr ⟨ha, hpass⟩, ?_⟩
        rw [← he, List.length_cons]
        congr 1
        dsimp only
        omega

lemma run_of_last {i : ℕ} {before : List α} {a : α} (h : Passes attempt i before)
    (ha : attempt (i + before.length) = .ok (a, true)) :
    run attempt (before.length + 1) i = some (before ++ [a], .ok ()) := by
  induction before generalizing i with
  | nil =>
    rw [List.length_nil, Nat.add_zero] at ha
    simp [run, ha]
  | cons b before ih =>
    obtain ⟨hb, hs⟩ := passes_cons.mp h
    rw [List.length_cons, show i + (before.length + 1) = i + 1 + before.length by omega] at ha
    simp [run, hb, ih hs ha]

lemma run_of_error {i : ℕ} {values : List α} {e : ε} (h : Passes attempt i values)
    (he : attempt (i + values.length) = .error e) :
    run attempt (values.length + 1) i = some (values, .error e) := by
  induction values generalizing i with
  | nil =>
    rw [List.length_nil, Nat.add_zero] at he
    simp [run, he]
  | cons b values ih =>
    obtain ⟨hb, hs⟩ := passes_cons.mp h
    rw [List.length_cons, show i + (values.length + 1) = i + 1 + values.length by omega] at he
    simp [run, hb, ih hs he]

end SteepSystem.Lib.Attempts
