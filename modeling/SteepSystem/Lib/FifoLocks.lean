import SteepSystem.Lib.Runs

/-!
A lock for each name, which its owner passes on to those who wait for it, first come first
served.
-/

namespace SteepSystem.Lib.FifoLocks

open SteepSystem.Lib.Runs

variable {κ γ : Type*} [DecidableEq κ]

structure Locks (κ γ : Type*) where
  owner : κ → Option γ
  queue : κ → List γ

/-- What happens at the lock of a name. -/
inductive Move (κ γ : Type*)
  | acquired (r : κ) (c : γ)
  | queued (r : κ) (c : γ)
  | released (r : κ)
  | passed (r : κ) (c : γ)
  deriving DecidableEq

namespace Move

/-- Who has come to the lock of `r`. -/
def asked (r : κ) : Move κ γ → Option γ
  | acquired r' c | queued r' c => if r' = r then some c else none
  | released _ | passed _ _ => none

/-- Who has got the lock of `r`. -/
def got (r : κ) : Move κ γ → Option γ
  | acquired r' c | passed r' c => if r' = r then some c else none
  | released _ | queued _ _ => none

end Move

namespace Locks

def free : Locks κ γ := ⟨fun _ => none, fun _ => []⟩

inductive Step (l : Locks κ γ) : Move κ γ → Locks κ γ → Prop
  | acquired {r : κ} {c : γ} (h : l.owner r = none) :
      Step l (.acquired r c) ⟨Function.update l.owner r (some c), l.queue⟩
  | queued {r : κ} {c : γ} (h : l.owner r ≠ none) :
      Step l (.queued r c) ⟨l.owner, Function.update l.queue r (l.queue r ++ [c])⟩
  | released {r : κ} (h : l.queue r = []) :
      Step l (.released r) ⟨Function.update l.owner r none, l.queue⟩
  | passed {r : κ} {c : γ} {q : List γ} (h : l.queue r = c :: q) :
      Step l (.passed r c) ⟨Function.update l.owner r (some c), Function.update l.queue r q⟩

/-- Runs of the locks. -/
abbrev Moves (l : Locks κ γ) (moves : List (Move κ γ)) (l' : Locks κ γ) : Prop :=
  Run (fun _ _ => True) Step l moves l'

variable {l l' : Locks κ γ} {m : Move κ γ} {moves : List (Move κ γ)}

/-- Nobody waits for a lock that is free. -/
def Tight (l : Locks κ γ) : Prop := ∀ r, l.owner r = none → l.queue r = []

lemma Tight.step (h : l.Tight) (hst : l.Step m l') : l'.Tight := by
  intro r hr
  cases hst with
  | @acquired r' c hfree =>
    by_cases he : r = r'
    · subst he
      simp at hr
    · simp only [Function.update_of_ne he] at hr
      exact h r hr
  | @queued r' c hheld =>
    have he : r ≠ r' := fun he => hheld (he ▸ hr)
    simp only [Function.update_of_ne he]
    exact h r hr
  | @released r' hnone =>
    by_cases he : r = r'
    · exact he ▸ hnone
    · simp only [Function.update_of_ne he] at hr
      exact h r hr
  | @passed r' c q hq =>
    have he : r ≠ r' := by
      rintro rfl
      simp at hr
    simp only [Function.update_of_ne he] at hr ⊢
    exact h r hr

lemma step_order (h : l.Tight) (hst : l.Step m l') (r : κ) :
    l.queue r ++ (m.asked r).toList = (m.got r).toList ++ l'.queue r := by
  cases hst with
  | @acquired r' c hfree =>
    by_cases he : r' = r
    · subst he
      simp [Move.asked, Move.got, h r' hfree]
    · simp [Move.asked, Move.got, he]
  | @queued r' c hheld =>
    by_cases he : r' = r
    · subst he
      simp [Move.asked, Move.got]
    · simp [Move.asked, Move.got, he, Ne.symm he]
  | released => simp [Move.asked, Move.got]
  | @passed r' c q hq =>
    by_cases he : r' = r
    · subst he
      simp [Move.asked, Move.got, hq]
    · simp [Move.asked, Move.got, he, Ne.symm he]

lemma Moves.order (h : l.Tight) (hrun : l.Moves moves l') (r : κ) :
    l.queue r ++ moves.filterMap (Move.asked r) = moves.filterMap (Move.got r) ++ l'.queue r := by
  induction hrun with
  | nil l => simp
  | @cons l t u m moves _ hst _ ih =>
    have hcons : ∀ f : Move κ γ → Option γ,
        (m :: moves).filterMap f = (f m).toList ++ moves.filterMap f := by
      intro f
      cases hf : f m <;> simp [hf]
    calc l.queue r ++ (m :: moves).filterMap (Move.asked r)
        = (l.queue r ++ (m.asked r).toList) ++ moves.filterMap (Move.asked r) := by
          rw [hcons, List.append_assoc]
      _ = (m.got r).toList ++ (t.queue r ++ moves.filterMap (Move.asked r)) := by
          rw [step_order h hst, List.append_assoc]
      _ = (m :: moves).filterMap (Move.got r) ++ u.queue r := by
          rw [ih (h.step hst), hcons, List.append_assoc]

omit [DecidableEq κ] in
lemma tight_free : (free : Locks κ γ).Tight := fun _ _ => rfl

/-- **First come, first served**: those who have come to a lock are those who have got it, in
the same order, and behind them those who wait for it. -/
theorem first_come (hrun : free.Moves moves l) (r : κ) :
    moves.filterMap (Move.asked r) = moves.filterMap (Move.got r) ++ l.queue r :=
  Moves.order tight_free hrun r

lemma Moves.tight (hrun : free.Moves moves l) : l.Tight :=
  hrun.invariant (fun _ _ _ h _ hst => h.step hst) tight_free

end Locks

end SteepSystem.Lib.FifoLocks
