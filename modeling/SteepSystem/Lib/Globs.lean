import Mathlib.Data.List.Infix
import Mathlib.Data.List.TakeWhile
import Mathlib.Tactic

/-!
Patterns of tokens that take one character or any number of characters of a kind, and the search
that extends the last such token only.

A search stands behind a token that can be extended, with the part of the text that is left, and
has followed single characters from there.
-/

namespace SteepSystem.Lib.Globs

variable {α : Type*}

inductive Token (α : Type*)
  | one (p : α → Bool)
  | many (p : α → Bool)

def Matches : List (Token α) → List α → Prop
  | [], s => s = []
  | .one p :: m, s => ∃ x r, s = x :: r ∧ p x ∧ Matches m r
  | .many p :: m, s => ∃ u r, s = u ++ r ∧ (∀ x ∈ u, p x) ∧ Matches m r

@[simp] lemma matches_nil {s : List α} : Matches [] s ↔ s = [] := Iff.rfl

lemma matches_one {p : α → Bool} {m : List (Token α)} {s : List α} :
    Matches (.one p :: m) s ↔ ∃ x r, s = x :: r ∧ p x ∧ Matches m r := Iff.rfl

lemma matches_many {p : α → Bool} {m : List (Token α)} {s : List α} :
    Matches (.many p :: m) s ↔ ∃ u r, s = u ++ r ∧ (∀ x ∈ u, p x) ∧ Matches m r := Iff.rfl

@[simp] lemma matches_one_cons {p : α → Bool} {m : List (Token α)} {x : α} {r : List α} :
    Matches (.one p :: m) (x :: r) ↔ p x ∧ Matches m r := by
  rw [matches_one]
  constructor
  · rintro ⟨y, r', heq, hp, hm⟩
    cases heq
    exact ⟨hp, hm⟩
  · rintro ⟨hp, hm⟩
    exact ⟨x, r, rfl, hp, hm⟩

lemma matches_append {P m : List (Token α)} {s : List α} :
    Matches (P ++ m) s ↔ ∃ u r, s = u ++ r ∧ Matches P u ∧ Matches m r := by
  induction P generalizing s with
  | nil => simp
  | cons t P ih =>
    rw [List.cons_append]
    cases t with
    | one p =>
      rw [matches_one]
      constructor
      · rintro ⟨x, r, rfl, hp, hm⟩
        obtain ⟨u, r, rfl, hu, hr⟩ := ih.mp hm
        exact ⟨x :: u, r, rfl, matches_one_cons.mpr ⟨hp, hu⟩, hr⟩
      · rintro ⟨u, r, rfl, ⟨x, u, rfl, hp, hu⟩, hr⟩
        exact ⟨x, u ++ r, rfl, hp, ih.mpr ⟨u, r, rfl, hu, hr⟩⟩
    | many p =>
      rw [matches_many]
      constructor
      · rintro ⟨v, r, rfl, hv, hm⟩
        obtain ⟨u, r, rfl, hu, hr⟩ := ih.mp hm
        exact ⟨v ++ u, r, by simp, ⟨v, u, rfl, hv, hu⟩, hr⟩
      · rintro ⟨_, r, rfl, ⟨v, u, rfl, hv, hu⟩, hr⟩
        exact ⟨v, u ++ r, by simp, hv, ih.mpr ⟨u, r, rfl, hu, hr⟩⟩

lemma Matches.append {P m : List (Token α)} {u r : List α} (hu : Matches P u)
    (hr : Matches m r) : Matches (P ++ m) (u ++ r) :=
  matches_append.mpr ⟨u, r, rfl, hu, hr⟩

lemma matches_singleton_one {p : α → Bool} {s : List α} :
    Matches [.one p] s ↔ ∃ x, s = [x] ∧ p x := by
  simp [matches_one]

lemma matches_singleton_many {p : α → Bool} {s : List α} :
    Matches [.many p] s ↔ ∀ x ∈ s, p x := by
  rw [matches_many]
  constructor
  · rintro ⟨u, r, rfl, hu, hr⟩
    rw [matches_nil] at hr
    simpa [hr] using hu
  · intro h
    exact ⟨s, [], by simp, h, rfl⟩

/-- A pattern that is read from its end matches the text read from its end. -/
lemma matches_reverse {m : List (Token α)} {s : List α} :
    Matches m.reverse s.reverse ↔ Matches m s := by
  have h : ∀ {m : List (Token α)} {s : List α}, Matches m s → Matches m.reverse s.reverse := by
    intro m
    induction m with
    | nil =>
      intro s hs
      rw [matches_nil] at hs
      rw [hs]
      rfl
    | cons t m ih =>
      intro s hs
      rw [List.reverse_cons]
      cases t with
      | one p =>
        obtain ⟨x, r, rfl, hp, hr⟩ := matches_one.mp hs
        rw [List.reverse_cons]
        exact (ih hr).append (matches_singleton_one.mpr ⟨x, rfl, hp⟩)
      | many p =>
        obtain ⟨u, r, rfl, hu, hr⟩ := matches_many.mp hs
        rw [List.reverse_append]
        exact (ih hr).append (matches_singleton_many.mpr (by simpa using hu))
  constructor
  · intro hm
    have := h hm
    rwa [List.reverse_reverse, List.reverse_reverse] at this
  · exact h

/-- How many tokens take one character. -/
def ones : List (Token α) → ℕ
  | [] => 0
  | .one _ :: m => ones m + 1
  | .many _ :: m => ones m

@[simp] lemma ones_append (P m : List (Token α)) : ones (P ++ m) = ones P + ones m := by
  induction P with
  | nil => simp [ones]
  | cons t P ih =>
    cases t with
    | one p =>
      rw [List.cons_append, ones, ih, ones]
      omega
    | many p => exact ih

lemma ones_eq_zero {m : List (Token α)} : ones m = 0 ↔ ∀ t ∈ m, ∃ p, t = .many p := by
  induction m with
  | nil => simp [ones]
  | cons t m ih =>
    cases t with
    | one p => simp [ones]
    | many p => simpa [ones] using ih

lemma Matches.ones_le {m : List (Token α)} {s : List α} (h : Matches m s) :
    ones m ≤ s.length := by
  induction m generalizing s with
  | nil => exact Nat.zero_le _
  | cons t m ih =>
    cases t with
    | one p =>
      obtain ⟨x, r, rfl, -, hr⟩ := matches_one.mp h
      have := ih hr
      rw [ones, List.length_cons]
      omega
    | many p =>
      obtain ⟨u, r, rfl, -, hr⟩ := matches_many.mp h
      have := ih hr
      rw [ones, List.length_append]
      omega

lemma matches_nil_right {m : List (Token α)} : Matches m [] ↔ ones m = 0 := by
  constructor
  · intro h
    exact Nat.le_zero.mp h.ones_le
  · intro h
    induction m with
    | nil => rfl
    | cons t m ih =>
      cases t with
      | one p => cases h
      | many p => exact matches_many.mpr ⟨[], [], rfl, by simp, ih h⟩

/-- The tokens take one character each, those of this text. -/
def Along : List (Token α) → List α → Prop
  | [], [] => True
  | .one p :: m, x :: s => p x ∧ Along m s
  | _, _ => False

lemma Along.snoc {pre : List (Token α)} {c : List α} (h : Along pre c) {p : α → Bool} {x : α}
    (hp : p x) : Along (pre ++ [.one p]) (c ++ [x]) := by
  induction pre generalizing c with
  | nil =>
    cases c with
    | nil => exact ⟨hp, trivial⟩
    | cons _ _ => exact h.elim
  | cons t pre ih =>
    cases t with
    | one q =>
      cases c with
      | nil => exact h.elim
      | cons y c => exact ⟨h.1, ih h.2⟩
    | many q => cases c <;> exact h.elim

lemma Along.matches {pre : List (Token α)} {c : List α} (h : Along pre c) : Matches pre c := by
  induction pre generalizing c with
  | nil =>
    cases c with
    | nil => rfl
    | cons _ _ => exact h.elim
  | cons t pre ih =>
    cases t with
    | one q =>
      cases c with
      | nil => exact h.elim
      | cons y c => exact matches_one_cons.mpr ⟨h.1, ih h.2⟩
    | many q => cases c <;> exact h.elim

lemma Along.length_eq {pre : List (Token α)} {c : List α} (h : Along pre c) :
    c.length = pre.length := by
  induction pre generalizing c with
  | nil =>
    cases c with
    | nil => rfl
    | cons _ _ => exact h.elim
  | cons t pre ih =>
    cases t with
    | one q =>
      cases c with
      | nil => exact h.elim
      | cons y c => rw [List.length_cons, List.length_cons, ih h.2]
    | many q => cases c <;> exact h.elim

lemma Along.ones {pre : List (Token α)} {c : List α} (h : Along pre c) (m : List (Token α)) :
    ones (pre ++ m) = c.length + ones m := by
  induction pre generalizing c with
  | nil =>
    cases c with
    | nil => simp
    | cons _ _ => exact h.elim
  | cons t pre ih =>
    cases t with
    | one q =>
      cases c with
      | nil => exact h.elim
      | cons y c =>
        rw [List.cons_append, Globs.ones, ih h.2, List.length_cons]
        omega
    | many q => cases c <;> exact h.elim

/-- Behind single characters a match of the rest is one of the whole. -/
lemma Along.matches_iff {pre m : List (Token α)} {c d : List α} (h : Along pre c) :
    Matches (pre ++ m) (c ++ d) ↔ Matches m d := by
  induction pre generalizing c with
  | nil =>
    cases c with
    | nil => rfl
    | cons _ _ => exact h.elim
  | cons t pre ih =>
    cases t with
    | one q =>
      cases c with
      | nil => exact h.elim
      | cons y c =>
        rw [List.cons_append, List.cons_append, matches_one_cons, ih h.2]
        exact and_iff_right h.1
    | many q => cases c <;> exact h.elim

/-- The search stands behind the tokens `P`, with `sm` and `sd` left: they match what is before,
and where the whole matches there is a match that leaves a part of `sd` for `sm`. -/
structure Behind (M : List (Token α)) (D : List α) (P sm : List (Token α)) (sd : List α) :
    Prop where
  pattern : M = P ++ sm
  before : ∃ C, D = C ++ sd ∧ Matches P C
  needed : Matches M D → ∃ u r, D = u ++ r ∧ Matches P u ∧ r <:+ sd ∧ Matches sm r

variable {M P sm m pre : List (Token α)} {D sd c d : List α}

lemma Behind.start (M : List (Token α)) (D : List α) : Behind M D [] M D :=
  ⟨rfl, ⟨[], rfl, rfl⟩, fun h => ⟨[], D, rfl, rfl, List.suffix_rfl, h⟩⟩

/-- A token that can be extended, with others like it behind it, takes over: the ones before it
need not be tried again for the sake of a shorter text. -/
lemma Behind.next {wild : List (Token α)} (h : Behind M D P (pre ++ (wild ++ m)) (c ++ d))
    (ha : Along pre c) (hwild : ones wild = 0) : Behind M D (P ++ pre ++ wild) m d := by
  refine ⟨by rw [h.pattern]; simp, ?_, fun hM => ?_⟩
  · obtain ⟨C, hD, hP⟩ := h.before
    refine ⟨C ++ c, by rw [hD]; simp, ?_⟩
    have := (hP.append ha.matches).append (matches_nil_right.mpr hwild)
    rwa [List.append_nil] at this
  · obtain ⟨u', r, hD, hP, hr, hm⟩ := h.needed hM
    obtain ⟨u, v, rfl, hu, hv⟩ := matches_append.mp hm
    obtain ⟨v, w, rfl, hv, hw⟩ := matches_append.mp hv
    have hones := hu.ones_le
    have hpre := ha.ones []
    rw [List.append_nil, Globs.ones, add_zero] at hpre
    have hlen := hr.length_le
    simp only [List.length_append] at hlen
    have hws : w <:+ c ++ d :=
      ((List.suffix_append v w).trans (List.suffix_append u _)).trans hr
    exact ⟨u' ++ u ++ v, w, by rw [hD]; simp, (hP.append hu).append hv,
      List.suffix_of_suffix_length_le hws (List.suffix_append c d) (by omega), hw⟩

/-- The pattern takes one more character. -/
def TakesMore (P : List (Token α)) (x : α) : Prop := ∀ C, Matches P C → Matches P (C ++ [x])

lemma takesMore_many (P : List (Token α)) {p : α → Bool} {x : α} (hp : p x) :
    TakesMore (P ++ [.many p]) x := by
  intro C hC
  obtain ⟨u, r, rfl, hu, hr⟩ := matches_append.mp hC
  rw [List.append_assoc]
  refine hu.append (matches_singleton_many.mpr fun y hy => ?_)
  rcases List.mem_append.mp hy with hy | hy
  · exact matches_singleton_many.mp hr y hy
  · rw [List.mem_singleton.mp hy]
    exact hp

/-- A token for any text makes up for those behind it. -/
lemma takesMore_any (P : List (Token α)) {wild : List (Token α)} (hwild : ones wild = 0) (x : α) :
    TakesMore (P ++ .many (fun _ => true) :: wild) x := by
  intro C hC
  obtain ⟨u, r, rfl, hu, -⟩ := matches_append.mp hC
  rw [List.append_assoc]
  exact hu.append (matches_many.mpr ⟨r ++ [x], [], by simp, fun _ _ => rfl,
    matches_nil_right.mpr hwild⟩)

/-- An extension by a character, after the search failed without. -/
lemma Behind.extend {x : α} (h : Behind M D P sm (x :: sd)) (hp : TakesMore P x)
    (hfail : ¬ Matches sm (x :: sd)) : Behind M D P sm sd := by
  refine ⟨h.pattern, ?_, fun hM => ?_⟩
  · obtain ⟨C, hD, hP⟩ := h.before
    exact ⟨C ++ [x], by rw [hD]; simp, hp C hP⟩
  · obtain ⟨u, r, hD, hP, hr, hm⟩ := h.needed hM
    rcases List.suffix_cons_iff.mp hr with rfl | hr
    · exact absurd hm hfail
    · exact ⟨u, r, hD, hP, hr, hm⟩

lemma Matches.length_eq {pre : List (Token α)} {u : List α} (h : Matches pre u)
    (hpre : ∀ t ∈ pre, ∃ p, t = .one p) : u.length = pre.length := by
  induction pre generalizing u with
  | nil => rw [matches_nil.mp h]; rfl
  | cons t pre ih =>
    obtain ⟨p, rfl⟩ := hpre t (by simp)
    obtain ⟨x, r, rfl, -, hr⟩ := matches_one.mp h
    rw [List.length_cons, List.length_cons, ih hr fun t ht => hpre t (by simp [ht])]

lemma Matches.all_of_many {wild : List (Token α)} {u : List α} {p : α → Bool} (h : Matches wild u)
    (hwild : ∀ t ∈ wild, t = .many p) : ∀ x ∈ u, p x := by
  induction wild generalizing u with
  | nil => simp [matches_nil.mp h]
  | cons t wild ih =>
    obtain rfl := hwild t (by simp)
    obtain ⟨v, r, rfl, hv, hr⟩ := matches_many.mp h
    intro x hx
    rcases List.mem_append.mp hx with hx | hx
    · exact hv x hx
    · exact ih hr (fun t ht => hwild t (by simp [ht])) x hx

/-- The only token that can be extended so far does not take the next character: if the rest does
not match from here, nothing does. -/
lemma Behind.blocked {wild : List (Token α)} {p : α → Bool} {x : α}
    (h : Behind M D (pre ++ wild) sm (x :: sd)) (hpre : ∀ t ∈ pre, ∃ q, t = .one q)
    (hwild : ∀ t ∈ wild, t = .many p) (hx : ¬ p x) (hM : Matches M D) : Matches sm (x :: sd) := by
  obtain ⟨C, hD, hC⟩ := h.before
  obtain ⟨u, r, hD', hu, hr, hm⟩ := h.needed hM
  obtain ⟨C1, C2, rfl, hC1, -⟩ := matches_append.mp hC
  obtain ⟨u1, u2, rfl, hu1, hu2⟩ := matches_append.mp hu
  have hlen : u1.length = C1.length := (hu1.length_eq hpre).trans (hC1.length_eq hpre).symm
  have hsplit : u1 ++ (u2 ++ r) = C1 ++ (C2 ++ x :: sd) := by
    rw [← List.append_assoc, ← List.append_assoc, ← hD', ← hD]
  obtain ⟨-, hrest⟩ := List.append_inj hsplit hlen
  rcases List.suffix_cons_iff.mp hr with rfl | hr
  · exact hm
  · -- the rest has to lie behind the character, which the token would have to take
    refine absurd (hu2.all_of_many hwild x ?_) hx
    obtain ⟨v, rfl⟩ := hr
    have hprefix : C2 ++ x :: v = u2 := by
      have heq : (C2 ++ x :: v) ++ r = u2 ++ r := by rw [hrest]; simp
      exact List.append_cancel_right heq
    rw [← hprefix]
    simp

/-- A search that has come to `m` and `d`. -/
structure Search (M : List (Token α)) (D : List α) (P sm : List (Token α)) (sd : List α)
    (m : List (Token α)) (d : List α) : Prop where
  behind : Behind M D P sm sd
  along : ∃ pre c, sm = pre ++ m ∧ sd = c ++ d ∧ Along pre c

lemma Behind.search (h : Behind M D P sm sd) : Search M D P sm sd sm sd :=
  ⟨h, [], [], rfl, rfl, trivial⟩

namespace Search

lemma length_le (h : Search M D P sm sd m d) : d.length ≤ sd.length := by
  obtain ⟨pre, c, -, rfl, -⟩ := h.along
  simp

lemma matches_iff (h : Search M D P sm sd m d) : Matches sm sd ↔ Matches m d := by
  obtain ⟨pre, c, rfl, rfl, ha⟩ := h.along
  exact ha.matches_iff

/-- A match on the way is one of the whole. -/
lemma matches_of (h : Search M D P sm sd m d) (hm : Matches m d) : Matches M D := by
  obtain ⟨C, hD, hP⟩ := h.behind.before
  rw [h.behind.pattern, hD]
  exact hP.append (h.matches_iff.mpr hm)

/-- At the end of the text nothing is gained by an extension. -/
lemma end_iff (h : Search M D P sm sd m []) : Matches M D ↔ ones m = 0 := by
  refine ⟨fun hM => ?_, fun hm => h.matches_of (matches_nil_right.mpr hm)⟩
  obtain ⟨-, r, -, -, hr, hmr⟩ := h.behind.needed hM
  obtain ⟨pre, c, rfl, rfl, ha⟩ := h.along
  have hones := hmr.ones_le
  have hlen := hr.length_le
  rw [ha.ones] at hones
  rw [List.append_nil] at hlen
  omega

lemma one {p : α → Bool} {x : α} (h : Search M D P sm sd (.one p :: m) (x :: d)) (hp : p x) :
    Search M D P sm sd m d := by
  obtain ⟨pre, c, hsm, hsd, ha⟩ := h.along
  exact ⟨h.behind, pre ++ [.one p], c ++ [x], by rw [hsm]; simp, by rw [hsd]; simp, ha.snoc hp⟩

lemma next {wild : List (Token α)} (h : Search M D P sm sd (wild ++ m) d)
    (hwild : ones wild = 0) : ∃ pre, Search M D (P ++ pre ++ wild) m d m d := by
  obtain ⟨pre, c, rfl, rfl, ha⟩ := h.along
  exact ⟨pre, (h.behind.next ha hwild).search⟩

lemma extend {x : α} (h : Search M D P sm (x :: sd) m d) (hp : TakesMore P x)
    (hfail : ¬ Matches m d) : Search M D P sm sd sm sd :=
  (h.behind.extend hp fun hm => hfail (h.matches_iff.mp hm)).search

end Search

end SteepSystem.Lib.Globs
