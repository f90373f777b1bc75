import Mathlib.Tactic

/-!
Numbers handed out under keys, with a counter for each key. `log` holds what was handed out, in
its order.
-/

namespace SteepSystem.Lib.Numbering

variable {κ ν : Type*} [LinearOrder ν]

/-- No number is handed out at or below an earlier one of its key. -/
def Ascends (log : List (κ × ν)) : Prop := log.Pairwise fun a b => a.1 = b.1 → a.2 < b.2

/-- The counters have passed everything that was handed out. -/
structure Numbered (counter : κ → Option ν) (log : List (κ × ν)) : Prop where
  ascends : Ascends log
  covered : ∀ e ∈ log, ∃ n, counter e.1 = some n ∧ e.2 ≤ n

variable {counter : κ → Option ν} {log held : List (κ × ν)} {k : κ} {n u : ν}

lemma numbered_nil : Numbered counter [] := ⟨List.Pairwise.nil, by simp⟩

lemma Ascends.injOn_of_sublist (h : Ascends log) (hsub : held.Sublist log) :
    held.Pairwise fun a b => a.1 = b.1 → a.2 ≠ b.2 :=
  (List.Pairwise.sublist hsub h).imp fun hab heq => (hab heq).ne

variable [DecidableEq κ]

lemma Numbered.raise (h : Numbered counter log) (hn : counter k = some n) (hle : n ≤ u) :
    Numbered (Function.update counter k (some u)) log := by
  refine ⟨h.ascends, fun e he => ?_⟩
  obtain ⟨m, hm, hem⟩ := h.covered e he
  by_cases hk : e.1 = k
  · rw [hk, hn] at hm
    obtain rfl := Option.some.inj hm
    exact ⟨u, by rw [hk, Function.update_self], hem.trans hle⟩
  · exact ⟨m, by rw [Function.update_of_ne hk, hm], hem⟩

lemma Numbered.give (h : Numbered counter log) (hn : counter k = some n) (hlt : n < u) :
    Numbered (Function.update counter k (some u)) (log ++ [(k, u)]) := by
  have hraise := h.raise hn hlt.le
  refine ⟨?_, ?_⟩
  · refine List.pairwise_append.mpr ⟨h.ascends, List.pairwise_singleton _ _, ?_⟩
    intro e he e' he' hkey
    obtain rfl := List.mem_singleton.mp he'
    obtain ⟨m, hm, hem⟩ := h.covered e he
    rw [hkey, hn] at hm
    obtain rfl := Option.some.inj hm
    exact hem.trans_lt hlt
  · intro e he
    rcases List.mem_append.mp he with he | he
    · exact hraise.covered e he
    · obtain rfl := List.mem_singleton.mp he
      exact ⟨u, Function.update_self .., le_rfl⟩

end SteepSystem.Lib.Numbering
