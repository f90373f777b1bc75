import Mathlib.Tactic

/-!
Runs of a transition system whose steps carry an input, and the two rules for them: an
invariant that every step keeps, and a relation to an abstract state that every step keeps.
-/

namespace SteepSystem.Lib.Runs

variable {σ ι α : Type*}

/-- `inputs` lead from `s` to the last state, each one taken in a state that admits it. -/
inductive Run (admits : σ → ι → Prop) (step : σ → ι → σ → Prop) : σ → List ι → σ → Prop
  | nil (s : σ) : Run admits step s [] s
  | cons {s t u : σ} {i : ι} {inputs : List ι} :
      admits s i → step s i t → Run admits step t inputs u → Run admits step s (i :: inputs) u

variable {admits : σ → ι → Prop} {step : σ → ι → σ → Prop}

lemma Run.invariant {I : σ → Prop}
    (keep : ∀ s i t, I s → admits s i → step s i t → I t) {s t : σ} {inputs : List ι}
    (h : Run admits step s inputs t) (hs : I s) : I t := by
  induction h with
  | nil s => exact hs
  | cons ha hst _ ih => exact ih (keep _ _ _ hs ha hst)

lemma Run.append {s t u : σ} {inputs more : List ι} (h : Run admits step s inputs t)
    (h' : Run admits step t more u) : Run admits step s (inputs ++ more) u := by
  induction h with
  | nil s => exact h'
  | cons ha hst _ ih => exact .cons ha hst (ih h')

/-- Each input of a run is admitted in the state that the inputs before it lead to. -/
lemma Run.admitted {s u : σ} {before after : List ι} {i : ι}
    (h : Run admits step s (before ++ i :: after) u) :
    ∃ t, Run admits step s before t ∧ admits t i := by
  induction before generalizing s with
  | nil =>
    cases h with
    | cons ha _ _ => exact ⟨s, .nil s, ha⟩
  | cons j before ih =>
    cases h with
    | cons ha hst hrest =>
      obtain ⟨t, hrun, hadm⟩ := ih hrest
      exact ⟨t, .cons ha hst hrun, hadm⟩

/-- A relation that each step keeps relates the last state to the abstract inputs folded. -/
lemma Run.simulates {R : σ → α → Prop} {f : α → ι → α}
    (keep : ∀ s a i t, R s a → admits s i → step s i t → R t (f a i)) {s t : σ} {a : α}
    {inputs : List ι} (h : Run admits step s inputs t) (hs : R s a) :
    R t (inputs.foldl f a) := by
  induction h generalizing a with
  | nil s => exact hs
  | cons ha hst _ ih => exact ih (keep _ _ _ _ hs ha hst)

/-- Where each step can be followed by an abstract one, a run can be followed by an abstract run. -/
lemma Run.refines {β : Type*} {R : σ → β → Prop} {admits' : β → ι → Prop}
    {step' : β → ι → β → Prop}
    (keep : ∀ s b i t, R s b → admits s i → step s i t →
      admits' b i ∧ ∃ c, step' b i c ∧ R t c) {s t : σ} {b : β} {inputs : List ι}
    (h : Run admits step s inputs t) (hs : R s b) :
    ∃ c, Run admits' step' b inputs c ∧ R t c := by
  induction h generalizing b with
  | nil s => exact ⟨b, .nil b, hs⟩
  | cons ha hst _ ih =>
    obtain ⟨hb, c, hbc, hc⟩ := keep _ _ _ _ hs ha hst
    obtain ⟨d, hcd, hd⟩ := ih hc
    exact ⟨d, .cons hb hbc hcd, hd⟩

end SteepSystem.Lib.Runs
