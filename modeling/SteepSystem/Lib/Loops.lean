import Mathlib.Tactic
import Mathlib.Data.Prod.Lex

/-!
Loops turn by turn: a turn returns, goes on, or does something that has no defined effect. A loop
whose turns keep an invariant and lower a measure returns.
-/

namespace SteepSystem.Lib.Loops

variable {σ ρ : Type*}

inductive Turn (σ ρ : Type*)
  | ret (result : ρ)
  | go (state : σ)
  | stray

/-- The result of the loop, if it returns within the fuel. -/
def loop (turn : σ → Turn σ ρ) : ℕ → σ → Option ρ
  | 0, _ => none
  | fuel + 1, s =>
    match turn s with
    | .ret r => some r
    | .go s => loop turn fuel s
    | .stray => none

variable {turn : σ → Turn σ ρ} {s s' : σ} {r : ρ} {fuel : ℕ}

lemma loop_ret (h : turn s = .ret r) : loop turn (fuel + 1) s = some r := by rw [loop, h]

lemma loop_go (h : turn s = .go s') : loop turn (fuel + 1) s = loop turn fuel s' := by
  rw [loop, h]

/-- The states in which a turn is begun. -/
inductive Reached (turn : σ → Turn σ ρ) (start : σ) : σ → Prop
  | start : Reached turn start start
  | turn {s s' : σ} : Reached turn start s → turn s = .go s' → Reached turn start s'

/-- A run from its first turn on. -/
lemma Reached.head {t : σ} (h : Reached turn s t) :
    t = s ∨ ∃ s', turn s = .go s' ∧ Reached turn s' t := by
  induction h with
  | start => exact .inl rfl
  | @turn t t' _ hturn ih =>
    rcases ih with rfl | ⟨s', hs', hreach⟩
    · exact .inr ⟨t', hturn, .start⟩
    · exact .inr ⟨s', hs', hreach.turn hturn⟩

/-- With enough fuel the loop returns a result that meets the condition. -/
def Returns (turn : σ → Turn σ ρ) (s : σ) (Q : ρ → Prop) : Prop :=
  ∃ n, ∀ fuel ≥ n, ∃ r, loop turn fuel s = some r ∧ Q r

lemma Returns.of_ret {Q : ρ → Prop} (h : turn s = .ret r) (hr : Q r) : Returns turn s Q := by
  refine ⟨1, fun fuel hf => ⟨r, ?_, hr⟩⟩
  obtain ⟨f, rfl⟩ : ∃ f, fuel = f + 1 := ⟨fuel - 1, by omega⟩
  exact loop_ret h

lemma Returns.of_go {Q : ρ → Prop} (h : turn s = .go s') (hs : Returns turn s' Q) :
    Returns turn s Q := by
  obtain ⟨n, hn⟩ := hs
  refine ⟨n + 1, fun fuel hf => ?_⟩
  obtain ⟨f, rfl⟩ : ∃ f, fuel = f + 1 := ⟨fuel - 1, by omega⟩
  rw [loop_go h]
  exact hn f (by omega)

/-- What a turn has to do for the loop to return in the end. -/
def Steps {ω : Type*} [LT ω] (Inv : σ → Prop) (Q : ρ → Prop) (measure : σ → ω) (s : σ) :
    Turn σ ρ → Prop
  | .ret r => Q r
  | .go s' => Inv s' ∧ measure s' < measure s
  | .stray => False

lemma Steps.mono {ω : Type*} [Preorder ω] {Inv : σ → Prop} {Q : ρ → Prop} {measure : σ → ω}
    {t : Turn σ ρ} (h : Steps Inv Q measure s' t) (hlt : measure s' < measure s) :
    Steps Inv Q measure s t := by
  cases t with
  | ret _ => exact h
  | go _ => exact ⟨h.1, h.2.trans hlt⟩
  | stray => exact h

/-- **Total correctness** of a loop from its turns. -/
theorem Returns.of_steps {ω : Type*} [LT ω] [WellFoundedLT ω] {Inv : σ → Prop} {Q : ρ → Prop}
    {measure : σ → ω} (h : ∀ s, Inv s → Steps Inv Q measure s (turn s)) (hs : Inv s) :
    Returns turn s Q := by
  induction hm : measure s using WellFoundedLT.induction generalizing s with
  | ind w ih =>
    subst hm
    have hstep := h s hs
    cases hturn : turn s with
    | ret r =>
      rw [hturn] at hstep
      exact .of_ret hturn hstep
    | go s' =>
      rw [hturn] at hstep
      exact .of_go hturn (ih _ hstep.2 hstep.1 rfl)
    | stray =>
      rw [hturn] at hstep
      exact hstep.elim

/-- The turns have to be right where the loop comes by only. -/
theorem Returns.of_reached {ω : Type*} [LT ω] [WellFoundedLT ω] {Inv : σ → Prop} {Q : ρ → Prop}
    {measure : σ → ω}
    (h : ∀ s', Reached turn s s' → Inv s' → Steps Inv Q measure s' (turn s')) (hs : Inv s) :
    Returns turn s Q := by
  suffices hboth : ∀ s', Reached turn s s' ∧ Inv s' →
      Steps (fun s' => Reached turn s s' ∧ Inv s') Q measure s' (turn s') from
    .of_steps hboth ⟨.start, hs⟩
  rintro s' ⟨hreach, hinv⟩
  have hstep := h s' hreach hinv
  cases hturn : turn s' with
  | ret r =>
    rw [hturn] at hstep
    exact hstep
  | go s'' =>
    rw [hturn] at hstep
    exact ⟨⟨hreach.turn hturn, hstep.1⟩, hstep.2⟩
  | stray =>
    rw [hturn] at hstep
    exact hstep.elim

end SteepSystem.Lib.Loops
