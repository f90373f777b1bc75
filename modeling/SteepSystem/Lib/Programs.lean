import Mathlib.Tactic

/-!
Programs over a signature of operations, run against a state on which an operation may fail,
with the rules that carry what every admitted operation does over to every program.
-/

namespace SteepSystem.Lib.Programs

/-- A program ends with a value, or performs an operation and goes on with its result. -/
inductive Program (Op : Type) (Res : Op → Type) (α : Type) where
  | ret (a : α)
  | op (o : Op) (k : Res o → Program Op Res α)

namespace Program

variable {Op : Type} {Res : Op → Type} {α β : Type}

def bind : Program Op Res α → (α → Program Op Res β) → Program Op Res β
  | ret a, f => f a
  | op o k, f => op o fun r => (k r).bind f

instance : Monad (Program Op Res) where
  pure := ret
  bind := bind

/-- The same program, `n` times over. -/
def replicate (p : Program Op Res α) : ℕ → Program Op Res (List α)
  | 0 => pure []
  | n + 1 => do
    let a ← p
    let l ← replicate p n
    pure (a :: l)

/-- One program for each entry of a list. -/
def forEach (f : β → Program Op Res α) : List β → Program Op Res (List α)
  | [] => pure []
  | b :: l => do
    let a ← f b
    let l ← forEach f l
    pure (a :: l)

variable {σ ε : Type} (exec : (o : Op) → σ → Except (ε × σ) (Res o × σ))

/-- A failure ends the program and leaves the state at which it was met. -/
def run : Program Op Res α → σ → Except (ε × σ) (α × σ)
  | ret a, s => .ok (a, s)
  | op o k, s =>
    match exec o s with
    | .ok (r, t) => run (k r) t
    | .error e => .error e

@[simp] lemma run_pure (a : α) (s : σ) :
    run exec (pure a : Program Op Res α) s = .ok (a, s) := rfl

lemma run_op (o : Op) (k : Res o → Program Op Res α) (s : σ) :
    run exec (op o k) s = (exec o s).bind fun x => run exec (k x.1) x.2 := by
  rw [run]
  cases exec o s <;> rfl

lemma run_bind (p : Program Op Res α) (f : α → Program Op Res β) (s : σ) :
    run exec (p >>= f) s = (run exec p s).bind fun x => run exec (f x.1) x.2 := by
  change run exec (p.bind f) s = _
  induction p generalizing s with
  | ret a => rfl
  | op o k ih =>
    simp only [Program.bind, run]
    cases exec o s with
    | error e => rfl
    | ok x => exact ih x.1 x.2

lemma run_bind_eq_ok {p : Program Op Res α} {f : α → Program Op Res β} {s u : σ} {b : β} :
    run exec (p >>= f) s = .ok (b, u) ↔
      ∃ a t, run exec p s = .ok (a, t) ∧ run exec (f a) t = .ok (b, u) := by
  rw [run_bind]
  cases run exec p s with
  | error e => simp [Except.bind]
  | ok x =>
    obtain ⟨a, t⟩ := x
    constructor
    · intro h
      exact ⟨a, t, rfl, h⟩
    · rintro ⟨a', t', h, h'⟩
      cases h
      exact h'

/-- A value that the program can end with, whatever its operations give it. -/
def Returns : Program Op Res α → α → Prop
  | ret a, x => x = a
  | op _ k, x => ∃ r, Returns (k r) x

@[simp] lemma returns_pure {a x : α} : Returns (pure a : Program Op Res α) x ↔ x = a := Iff.rfl

lemma returns_bind {p : Program Op Res α} {f : α → Program Op Res β} {y : β} :
    Returns (p >>= f) y ↔ ∃ a, Returns p a ∧ Returns (f a) y := by
  change Returns (p.bind f) y ↔ _
  induction p with
  | ret a => simp [Program.bind, Returns]
  | op o k ih =>
    simp only [Program.bind, Returns, ih]
    constructor
    · rintro ⟨r, a, ha, hy⟩
      exact ⟨a, ⟨r, ha⟩, hy⟩
    · rintro ⟨a, ⟨r, ha⟩, hy⟩
      exact ⟨r, a, ha, hy⟩

variable {exec} in
lemma returns_of_run {p : Program Op Res α} {s t : σ} {a : α}
    (h : run exec p s = .ok (a, t)) : Returns p a := by
  induction p generalizing s with
  | ret a =>
    cases h
    rfl
  | op o k ih =>
    rw [run] at h
    cases hx : exec o s with
    | error e =>
      rw [hx] at h
      cases h
    | ok x =>
      rw [hx] at h
      exact ⟨x.1, ih x.1 h⟩

lemma returns_replicate {p : Program Op Res α} {n : ℕ} {l : List α}
    (h : Returns (replicate p n) l) : l.length = n := by
  induction n generalizing l with
  | zero =>
    cases h
    rfl
  | succ n ih =>
    rw [replicate, returns_bind] at h
    obtain ⟨a, -, h⟩ := h
    obtain ⟨m, hm, hl⟩ := returns_bind.mp h
    cases hl
    rw [List.length_cons, ih hm]

/-- Every operation that the program meets when it is run from `s` is admitted there. -/
def Admits (adm : Op → σ → Prop) : Program Op Res α → σ → Prop
  | ret _, _ => True
  | op o k, s =>
    adm o s ∧
      match exec o s with
      | .ok (r, t) => Admits adm (k r) t
      | .error _ => True

instance decidableAdmits (adm : Op → σ → Prop) [∀ o s, Decidable (adm o s)] :
    ∀ (p : Program Op Res α) (s : σ), Decidable (Admits exec adm p s)
  | ret _, _ => .isTrue trivial
  | op o k, s =>
    have : Decidable (match exec o s with
        | .ok (r, t) => Admits exec adm (k r) t
        | .error _ => True) :=
      match exec o s with
      | .ok (r, t) => decidableAdmits adm (k r) t
      | .error _ => .isTrue trivial
    inferInstanceAs (Decidable (adm o s ∧
      match exec o s with
      | .ok (r, t) => Admits exec adm (k r) t
      | .error _ => True))

/-- Every way through the program performs one of the operations in `chk`. -/
def Performs (chk : Op → Prop) : Program Op Res α → Prop
  | ret _ => False
  | op o k => chk o ∨ ∀ r, Performs chk (k r)

lemma Performs.bind {chk : Op → Prop} {p : Program Op Res α} {f : α → Program Op Res β}
    (h : Performs chk p) : Performs chk (p >>= f) := by
  change Performs chk (p.bind f)
  induction p with
  | ret a => exact h.elim
  | op o k ih =>
    rcases h with h | h
    · exact .inl h
    · exact .inr fun r => ih r (h r)

variable {exec} {adm : Op → σ → Prop} {I : σ → Prop}

/-- What each admitted operation does to a state that meets `I` is what each program does. -/
theorem run_rule {R : σ → σ → Prop} {E : σ → ε × σ → Prop} (refl : ∀ s, R s s)
    (trans : ∀ {s t u}, R s t → R t u → R s u) (fails : ∀ {s t e}, R s t → E t e → E s e)
    (done : ∀ o s r t, I s → adm o s → exec o s = .ok (r, t) → I t ∧ R s t)
    (failed : ∀ o s e, I s → adm o s → exec o s = .error e → E s e)
    (p : Program Op Res α) {s : σ} (hs : I s) (ha : Admits exec adm p s) :
    (∀ a t, run exec p s = .ok (a, t) → I t ∧ R s t) ∧
      ∀ e, run exec p s = .error e → E s e := by
  induction p generalizing s with
  | ret a =>
    constructor
    · intro a t h
      cases h
      exact ⟨hs, refl s⟩
    · intro e h
      cases h
  | op o k ih =>
    rw [Admits] at ha
    obtain ⟨hadm, hrest⟩ := ha
    unfold run
    cases hx : exec o s with
    | error e =>
      constructor
      · intro a t h
        cases h
      · intro e' h
        cases h
        exact failed o s e hs hadm hx
    | ok x =>
      obtain ⟨r, t⟩ := x
      rw [hx] at hrest
      obtain ⟨ht, hst⟩ := done o s r t hs hadm hx
      obtain ⟨hok, herr⟩ := ih r ht hrest
      constructor
      · intro a u h
        obtain ⟨hu, htu⟩ := hok a u h
        exact ⟨hu, trans hst htu⟩
      · intro e h
        exact fails hst (herr e h)

/-- What the operations in `chk` establish and all keep holds at the end of a program that
performs one of them. -/
theorem run_establishes {J : σ → Prop} {chk : Op → Prop}
    (inv : ∀ o s r t, I s → adm o s → exec o s = .ok (r, t) → I t)
    (keep : ∀ o s r t, I s → adm o s → exec o s = .ok (r, t) → J s ∨ chk o → J t)
    (p : Program Op Res α) {s t : σ} {a : α} (hs : I s) (ha : Admits exec adm p s)
    (h : run exec p s = .ok (a, t)) (hp : J s ∨ Performs chk p) : J t := by
  induction p generalizing s with
  | ret a =>
    cases h
    rcases hp with hp | hp
    · exact hp
    · exact hp.elim
  | op o k ih =>
    rw [Admits] at ha
    obtain ⟨hadm, hrest⟩ := ha
    unfold run at h
    cases hx : exec o s with
    | error e =>
      rw [hx] at h
      cases h
    | ok x =>
      obtain ⟨r, u⟩ := x
      rw [hx] at h hrest
      apply ih r (inv o s r u hs hadm hx) hrest h
      rcases hp with hp | hp | hp
      · exact .inl (keep o s r u hs hadm hx (.inl hp))
      · exact .inl (keep o s r u hs hadm hx (.inr hp))
      · exact .inr (hp r)

/-- A program that ends with a value has performed operations that each met what an admitted one
that succeeds meets. -/
theorem run_ok_admits {Q : Op → σ → Prop}
    (ok : ∀ o s r t, adm o s → exec o s = .ok (r, t) → Q o s) (p : Program Op Res α) {s t : σ}
    {a : α} (ha : Admits exec adm p s) (h : run exec p s = .ok (a, t)) : Admits exec Q p s := by
  induction p generalizing s with
  | ret a => trivial
  | op o k ih =>
    rw [Admits] at ha ⊢
    obtain ⟨hadm, hrest⟩ := ha
    unfold run at h
    cases hx : exec o s with
    | error e =>
      rw [hx] at h
      cases h
    | ok x =>
      obtain ⟨r, u⟩ := x
      rw [hx] at h hrest
      exact ⟨ok o s r u hadm hx, ih r hrest h⟩

end Program

end SteepSystem.Lib.Programs
