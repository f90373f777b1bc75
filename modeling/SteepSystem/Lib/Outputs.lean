import Mathlib.Tactic

/-!
Reads and writes of a codec: conditions whose later parts are not looked at when an earlier one
fails, and text put behind what an output of some capacity holds.
-/

namespace SteepSystem.Lib.Outputs

variable {α : Type*}

/-- `a && b`, where each may read out of bounds. -/
def both : Option Bool → Option Bool → Option Bool
  | some true, b => b
  | some false, _ => some false
  | none, _ => none

@[simp] lemma both_true (b : Option Bool) : both (some true) b = b := rfl

@[simp] lemma both_false (b : Option Bool) : both (some false) b = some false := rfl

@[simp] lemma both_some (a b : Bool) : both (some a) (some b) = some (a && b) := by cases a <;> rfl

/-- The element of the input at `i` meets the condition. -/
def reads (input : List α) (i : ℕ) (p : α → Bool) : Option Bool := input[i]?.map p

def put (cap : ℕ) (out new : List α) : Option (List α) :=
  if out.length + new.length ≤ cap then some (out ++ new) else none

variable {cap : ℕ} {out new more : List α}

lemma put_of_le (h : out.length + new.length ≤ cap) : put cap out new = some (out ++ new) :=
  if_pos h

lemma put_eq_none (h : cap < out.length + new.length) : put cap out new = none :=
  if_neg (not_le.mpr h)

lemma put_nil (h : out.length ≤ cap) : put cap out [] = some out := by
  rw [put_of_le (by simpa using h), List.append_nil]

/-- Two texts one after the other. -/
lemma put_put (out new more : List α) :
    ((put cap out new).bind fun out => put cap out more) = put cap out (new ++ more) := by
  by_cases h : out.length + new.length ≤ cap
  · rw [put_of_le h, Option.bind_some, put, put, List.length_append, List.length_append,
      List.append_assoc, add_assoc]
  · rw [put_eq_none (not_le.mp h), Option.bind_none, put_eq_none]
    rw [List.length_append]
    omega

/-- A text and its terminator in an empty output, with what is made of the text. -/
lemma put_terminated {β : Type*} (cap : ℕ) (t : List α) (nul : α) (f : List α → β) :
    ((put cap [] t).bind fun out => (put cap out [nul]).map fun _ => f out) =
      if t.length < cap then some (f t) else none := by
  by_cases hle : t.length ≤ cap
  · rw [put_of_le (by simpa using hle), Option.bind_some, List.nil_append, put]
    simp only [List.length_singleton, Nat.succ_le_iff]
    split
    · rfl
    · rfl
  · rw [put_eq_none (by simpa using hle), if_neg (by omega)]
    rfl

/-! ### Writers -/

/-- What a writer does next: it gives up, ends with a last piece, or writes a piece and goes on. -/
inductive Event (σ α : Type*)
  | fail
  | done (last : List α)
  | write (piece : List α) (state : σ)

section Writers

variable {σ : Type*} (turn : σ → Event σ α) (nul : α)

/-- A writer that looks before each turn whether there is room for one element and a terminator, and
nowhere else: `none` where it writes behind its output, `some none` where it gives up. -/
def run (cap : ℕ) : ℕ → σ → List α → Option (Option (List α))
  | 0, _, _ => some none
  | fuel + 1, s, out =>
    if out.length + 1 < cap then
      match turn s with
      | .fail => some none
      | .done last => (put cap out (last ++ [nul])).map fun _ => some (out ++ last)
      | .write piece s => (put cap out piece).bind (run cap fuel s)
    else some none

/-- The pieces that it writes when there is always room. -/
def pieces : ℕ → σ → List (List α)
  | 0, _ => []
  | fuel + 1, s =>
    match turn s with
    | .fail => []
    | .done last => [last ++ [nul]]
    | .write piece s => piece :: pieces fuel s

/-- The whole text, when there is always room. -/
def outcome : ℕ → σ → Option (List α)
  | 0, _ => none
  | fuel + 1, s =>
    match turn s with
    | .fail => none
    | .done last => some last
    | .write piece s => (outcome fuel s).map (piece ++ ·)

/-- No piece that is begun with room for two elements reaches behind the output. -/
def Inside (cap n : ℕ) (l : List (List α)) : Prop :=
  ∀ before piece after, l = before ++ piece :: after → n + before.flatten.length + 1 < cap →
    n + before.flatten.length + piece.length ≤ cap

variable {turn nul} {fuel : ℕ} {s : σ} {n : ℕ} {l : List (List α)}

lemma inside_nil : Inside cap n ([] : List (List α)) := by
  intro before piece after h
  exact absurd h (by simp)

lemma inside_cons {piece : List α} (hroom : n + 1 < cap) : Inside cap n (piece :: l) ↔
    n + piece.length ≤ cap ∧ Inside cap (n + piece.length) l := by
  constructor
  · intro h
    refine ⟨by simpa using h [] piece l rfl (by simpa using hroom), fun before p after hl hlt => ?_⟩
    have := h (piece :: before) p after (by rw [hl]; rfl)
    simp only [List.flatten_cons, List.length_append] at this
    omega
  · rintro ⟨hpiece, h⟩ before p after hl hlt
    cases before with
    | nil =>
      obtain ⟨rfl, -⟩ := List.cons.inj hl
      simpa using hpiece
    | cons q before =>
      obtain ⟨rfl, htail⟩ := List.cons.inj hl
      simp only [List.flatten_cons, List.length_append] at hlt ⊢
      have := h before p after htail (by omega)
      omega

lemma inside_of_full (h : ¬ n + 1 < cap) : Inside cap n l := fun _ _ _ _ hlt => by omega

/-- **The writer stays inside** exactly when its pieces do. -/
lemma run_isSome : (run turn nul cap fuel s out).isSome ↔
    Inside cap out.length (pieces turn nul fuel s) := by
  induction fuel generalizing s out with
  | zero => exact iff_of_true rfl inside_nil
  | succ fuel ih =>
    rw [run, pieces]
    by_cases hroom : out.length + 1 < cap
    · rw [if_pos hroom]
      cases turn s with
      | fail => exact iff_of_true rfl inside_nil
      | done last =>
        dsimp only
        rw [Option.isSome_map, inside_cons hroom, put]
        split
        · exact iff_of_true rfl ⟨‹_›, fun before p after h => absurd h (by simp)⟩
        · exact iff_of_false Bool.false_ne_true fun h => ‹¬ _› h.1
      | write piece s =>
        dsimp only
        rw [inside_cons hroom, put]
        split
        · rw [Option.bind_some, ih, List.length_append, and_iff_right ‹_›]
        · exact iff_of_false Bool.false_ne_true fun h => ‹¬ _› h.1
    · rw [if_neg hroom]
      exact iff_of_true rfl (inside_of_full hroom)

lemma run_of_outcome {t : List α} (h : outcome turn fuel s = some t)
    (hroom : out.length + t.length + 1 < cap) :
    run turn nul cap fuel s out = some (some (out ++ t)) := by
  induction fuel generalizing s out t with
  | zero => cases h
  | succ fuel ih =>
    rw [run, if_pos (by omega)]
    rw [outcome] at h
    cases hturn : turn s with
    | fail =>
      rw [hturn] at h
      cases h
    | done last =>
      rw [hturn] at h
      obtain rfl := Option.some.inj h
      dsimp only
      rw [put_of_le]
      · rfl
      · rw [List.length_append, List.length_singleton]
        omega
    | write piece s' =>
      rw [hturn] at h
      obtain ⟨t, ht, rfl⟩ := Option.map_eq_some_iff.mp h
      rw [List.length_append] at hroom
      dsimp only
      rw [put_of_le (by omega), Option.bind_some, ih ht, List.append_assoc]
      rw [List.length_append]
      omega

/-- A writer whose writes make its input shorter needs no more fuel than the input is long. -/
lemma outcome_congr {size : σ → ℕ}
    (hsize : ∀ {s s' : σ} {piece : List α}, turn s = .write piece s' → size s' < size s) {fuel' : ℕ}
    (h : size s < fuel) (h' : size s < fuel') : outcome turn fuel s = outcome turn fuel' s := by
  induction fuel generalizing s fuel' with
  | zero => omega
  | succ fuel ih =>
    cases fuel' with
    | zero => omega
    | succ fuel' =>
      rw [outcome, outcome]
      cases hturn : turn s with
      | fail => rfl
      | done last => rfl
      | write piece s' =>
        have hlt := hsize hturn
        dsimp only
        rw [ih (by omega) (show size s' < fuel' by omega)]

lemma outcome_of_run {r : List α} (h : run turn nul cap fuel s out = some (some r)) :
    ∃ t, outcome turn fuel s = some t ∧ r = out ++ t := by
  induction fuel generalizing s out with
  | zero => cases h
  | succ fuel ih =>
    rw [run] at h
    split at h
    · rw [outcome]
      cases hturn : turn s with
      | fail =>
        rw [hturn] at h
        cases h
      | done last =>
        rw [hturn] at h
        obtain ⟨_, -, hr⟩ := Option.map_eq_some_iff.mp h
        exact ⟨last, rfl, (Option.some.inj hr).symm⟩
      | write piece s' =>
        rw [hturn] at h
        obtain ⟨out', hput, h⟩ := Option.bind_eq_some_iff.mp h
        obtain ⟨t, ht, rfl⟩ := ih h
        have hout : out' = out ++ piece := by
          rw [put] at hput
          split at hput
          · exact (Option.some.inj hput).symm
          · cases hput
        refine ⟨piece ++ t, ?_, by rw [hout, List.append_assoc]⟩
        dsimp only
        rw [ht]
        rfl
    · cases h

lemma length_of_run {r : List α} (h : run turn nul cap fuel s out = some (some r)) :
    r.length + 1 ≤ cap := by
  induction fuel generalizing s out with
  | zero => cases h
  | succ fuel ih =>
    rw [run] at h
    split at h
    · cases hturn : turn s with
      | fail =>
        rw [hturn] at h
        cases h
      | done last =>
        rw [hturn] at h
        obtain ⟨out', hput, hr⟩ := Option.map_eq_some_iff.mp h
        obtain rfl := Option.some.inj hr
        rw [put] at hput
        split at hput
        · have hle := ‹_ ≤ cap›
          rw [List.length_append, List.length_singleton] at hle
          rw [List.length_append]
          omega
        · cases hput
      | write piece s' =>
        rw [hturn] at h
        obtain ⟨out', -, h⟩ := Option.bind_eq_some_iff.mp h
        exact ih h
    · cases h

end Writers

end SteepSystem.Lib.Outputs
