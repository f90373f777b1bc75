import Mathlib.Logic.Function.Iterate
import Mathlib.Tactic

/-!
Loops that search: a state is looked at, and unless that gives a result the loop goes on with the
next one. The turns are counted down from a bound that is given.
-/

namespace SteepSystem.Lib.Searches

variable {σ ρ : Type*} (next : σ → σ) (out : σ → Option ρ)

def search : ℕ → σ → Option ρ
  | 0, _ => none
  | n + 1, s =>
    match out s with
    | some r => some r
    | none => search n (next s)

/-- Some bound is enough. -/
def Ends (s : σ) : Prop := ∃ n, (search next out n s).isSome = true

variable {next out} {s : σ} {n : ℕ} {r : ρ}

lemma search_succ_of_none (h : out s = none) :
    search next out (n + 1) s = search next out n (next s) := by
  rw [search, h]

/-- What holds of the first state and is kept by each turn without a result holds of the state that
gives one. -/
theorem search_inv (inv : σ → Prop) (hnext : ∀ s, inv s → out s = none → inv (next s)) (h : inv s)
    (hr : search next out n s = some r) : ∃ s', inv s' ∧ out s' = some r := by
  induction n generalizing s with
  | zero => cases hr
  | succ n ih =>
    cases hout : out s with
    | some r' =>
      rw [search, hout] at hr
      exact ⟨s, h, hout.trans hr⟩
    | none =>
      rw [search_succ_of_none hout] at hr
      exact ih (hnext s h hout) hr

end SteepSystem.Lib.Searches
