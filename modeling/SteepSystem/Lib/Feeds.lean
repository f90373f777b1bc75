import Mathlib.Tactic

/-!
Readers of a stream that comes piece by piece. One that has not enough yet waits, and is begun
again at the same place when more has come. Where it reads the same however much more there is, the
pieces make no difference.
-/

namespace SteepSystem.Lib.Feeds

inductive Stop
  | wait | fail
  deriving DecidableEq

/-- Reads from the front of what there is, and gives back what it leaves. -/
def Reader (β α : Type) := List β → Except Stop (α × List β)

variable {β α γ σ : Type}

namespace Reader

instance : Monad (Reader β) where
  pure a := fun p => .ok (a, p)
  bind r k := fun p =>
    match r p with
    | .ok (a, rest) => k a rest
    | .error e => .error e

def fail : Reader β α := fun _ => .error .fail

/-- What has to be there at once. -/
def take (n : ℕ) : Reader β (List β) := fun p =>
  if p.length < n then .error .fail else .ok (p.take n, p.drop n)

/-- Waits until there is as much as that. -/
def needing (n : ℕ) (r : Reader β α) : Reader β α := fun p =>
  if p.length < n then .error .wait else r p

/-- With how much has been read. -/
def measured (r : Reader β α) : Reader β (α × ℕ) := fun p =>
  match r p with
  | .ok (a, rest) => .ok ((a, p.length - rest.length), rest)
  | .error e => .error e

/-- One after another, to a count. -/
def times (r : Reader β α) : ℕ → Reader β (List α)
  | 0 => pure []
  | n + 1 => do
    let a ← r
    let as ← times r n
    pure (a :: as)

end Reader

open Reader

@[simp] lemma pure_apply (a : α) (p : List β) : (pure a : Reader β α) p = .ok (a, p) := rfl

lemma bind_of_ok {r : Reader β α} {k : α → Reader β γ} {p rest : List β} {a : α}
    (h : r p = .ok (a, rest)) : (r >>= k) p = k a rest := by
  change (match r p with | .ok (a, rest) => k a rest | .error e => .error e) = k a rest
  rw [h]

lemma bind_of_error {r : Reader β α} {k : α → Reader β γ} {p : List β} {e : Stop}
    (h : r p = .error e) : (r >>= k) p = .error e := by
  change (match r p with | .ok (a, rest) => k a rest | .error e => .error e) = .error e
  rw [h]

lemma bind_eq_ok {r : Reader β α} {k : α → Reader β γ} {p rest : List β} {c : γ} :
    (r >>= k) p = .ok (c, rest) ↔ ∃ a p', r p = .ok (a, p') ∧ k a p' = .ok (c, rest) := by
  cases hr : r p with
  | error e => simp [bind_of_error hr]
  | ok x =>
    obtain ⟨a, p'⟩ := x
    rw [bind_of_ok hr]
    constructor
    · exact fun h => ⟨a, p', rfl, h⟩
    · rintro ⟨a', p'', h, hk⟩
      cases h
      exact hk

lemma bind_eq_error {r : Reader β α} {k : α → Reader β γ} {p : List β} {e : Stop} :
    (r >>= k) p = .error e ↔
      r p = .error e ∨ ∃ a p', r p = .ok (a, p') ∧ k a p' = .error e := by
  cases hr : r p with
  | error e' => simp [bind_of_error hr]
  | ok x =>
    obtain ⟨a, p'⟩ := x
    rw [bind_of_ok hr]
    constructor
    · exact fun h => .inr ⟨a, p', rfl, h⟩
    · rintro (h | ⟨a', p'', h, hk⟩)
      · cases h
      · cases h
        exact hk

/-! ### Readers that more of the stream does not change -/

/-- What has been read once is read again with more behind it, and a reader that waits goes beyond
all that it has seen. -/
structure Incremental (r : Reader β α) : Prop where
  suffix : ∀ {p a rest}, r p = .ok (a, rest) → rest <:+ p
  persists : ∀ {p a rest} (q), r p = .ok (a, rest) → r (p ++ q) = .ok (a, rest ++ q)
  waits : ∀ {p q a rest}, r p = .error .wait → r (p ++ q) = .ok (a, rest) → rest.length ≤ q.length

/-- At least as much as that is read. -/
structure Reads (n : ℕ) (r : Reader β α) : Prop where
  le : ∀ {p a rest}, r p = .ok (a, rest) → rest.length + n ≤ p.length

namespace Incremental

lemma shrinks {r : Reader β α} {p rest : List β} {a : α} (hr : Incremental r)
    (h : r p = .ok (a, rest)) : rest.length ≤ p.length :=
  (hr.suffix h).length_le

lemma pure (a : α) : Incremental (Pure.pure a : Reader β α) where
  suffix h := by cases h; exact List.suffix_rfl
  persists q h := by cases h; rfl
  waits h := by cases h

lemma fail : Incremental (fail : Reader β α) where
  suffix h := by cases h
  persists q h := by cases h
  waits h := by cases h

lemma bind {r : Reader β α} {k : α → Reader β γ} (hr : Incremental r)
    (hk : ∀ a, Incremental (k a)) : Incremental (r >>= k) where
  suffix h := by
    obtain ⟨a, p', hp, hc⟩ := bind_eq_ok.mp h
    exact ((hk a).suffix hc).trans (hr.suffix hp)
  persists q h := by
    obtain ⟨a, p', hp, hc⟩ := bind_eq_ok.mp h
    exact bind_eq_ok.mpr ⟨a, p' ++ q, hr.persists q hp, (hk a).persists q hc⟩
  waits {p q} _ _ h hext := by
    obtain ⟨a, p', hp, hc⟩ := bind_eq_ok.mp hext
    rcases bind_eq_error.mp h with hwait | ⟨a', p'', hp', hwait⟩
    · exact ((hk a).shrinks hc).trans (hr.waits hwait hp)
    · rw [hr.persists q hp'] at hp
      cases hp
      exact (hk a).waits hwait hc

lemma map {r : Reader β α} (hr : Incremental r) (f : α → γ) :
    Incremental (r >>= fun a => Pure.pure (f a)) :=
  hr.bind fun a => pure (f a)

lemma ite {c : Prop} [Decidable c] {r s : Reader β α} (hr : Incremental r) (hs : Incremental s) :
    Incremental (if c then r else s) := by
  split_ifs
  · exact hr
  · exact hs

lemma take (n : ℕ) : Incremental (take n : Reader β (List β)) where
  suffix h := by
    unfold Reader.take at h
    split_ifs at h
    cases h
    exact List.drop_suffix _ _
  persists {p a rest} q h := by
    unfold Reader.take at h ⊢
    split_ifs at h with hlen
    cases h
    have hle : n ≤ p.length := by omega
    rw [if_neg (by rw [List.length_append]; omega), List.take_append_of_le_length hle,
      List.drop_append_of_le_length hle]
  waits h := by
    unfold Reader.take at h
    split_ifs at h
    cases h

/-- A reader that waits until there is what it reads. -/
lemma needing {r : Reader β α} {n : ℕ} (hr : Incremental r) (hn : Reads n r) :
    Incremental (needing n r) where
  suffix h := by
    unfold Reader.needing at h
    split_ifs at h
    exact hr.suffix h
  persists {p a rest} q h := by
    unfold Reader.needing at h ⊢
    split_ifs at h with hlen
    rw [if_neg (by rw [List.length_append]; omega)]
    exact hr.persists q h
  waits {p q a rest} h hext := by
    unfold Reader.needing at h hext
    split_ifs at hext with hlong
    have hread := hn.le hext
    split_ifs at h with hlen
    · simp at hread
      omega
    · exact hr.waits h hext

/-- A reader that waits until there is something. -/
lemma needing_one {r : Reader β α} (hr : Incremental r) : Incremental (Reader.needing 1 r) where
  suffix h := by
    unfold Reader.needing at h
    split_ifs at h
    exact hr.suffix h
  persists {p a rest} q h := by
    unfold Reader.needing at h ⊢
    split_ifs at h with hlen
    rw [if_neg (by rw [List.length_append]; omega)]
    exact hr.persists q h
  waits {p q a rest} h hext := by
    unfold Reader.needing at h hext
    split_ifs at hext with hlong
    split_ifs at h with hlen
    · obtain rfl : p = [] := by simpa using hlen
      exact hr.shrinks hext
    · exact hr.waits h hext

lemma measured {r : Reader β α} (hr : Incremental r) : Incremental (measured r) where
  suffix {p _ _} h := by
    cases hp : r p with
    | error e => simp [Reader.measured, hp] at h
    | ok y =>
      simp only [Reader.measured, hp, Except.ok.injEq, Prod.mk.injEq] at h
      obtain ⟨-, rfl⟩ := h
      exact hr.suffix hp
  persists {p _ _} q h := by
    cases hp : r p with
    | error e => simp [Reader.measured, hp] at h
    | ok y =>
      simp only [Reader.measured, hp, Except.ok.injEq, Prod.mk.injEq] at h
      obtain ⟨rfl, rfl⟩ := h
      simp only [Reader.measured, hr.persists q hp, List.length_append, Nat.add_sub_add_right]
  waits {p q _ _} h hext := by
    cases hp : r (p ++ q) with
    | error e => simp [Reader.measured, hp] at hext
    | ok y =>
      simp only [Reader.measured, hp, Except.ok.injEq, Prod.mk.injEq] at hext
      obtain ⟨-, rfl⟩ := hext
      cases hp' : r p with
      | error e =>
        simp only [Reader.measured, hp', Except.error.injEq] at h
        subst h
        exact hr.waits hp' hp
      | ok z => simp [Reader.measured, hp'] at h

lemma times {r : Reader β α} (hr : Incremental r) (n : ℕ) : Incremental (times r n) := by
  induction n with
  | zero => exact pure []
  | succ n ih => exact hr.bind fun a => ih.bind fun as => pure (a :: as)

end Incremental

/-! ### What is read -/

namespace Reads

lemma take (n : ℕ) : Reads n (take n : Reader β (List β)) where
  le h := by
    unfold Reader.take at h
    split_ifs at h
    cases h
    simp
    omega

lemma mono {r : Reader β α} {n m : ℕ} (hr : Reads n r) (hm : m ≤ n) : Reads m r where
  le h := by
    have := hr.le h
    omega

lemma fail (n : ℕ) : Reads n (fail : Reader β α) where
  le h := by cases h

lemma zero {r : Reader β α} (hr : Incremental r) : Reads 0 r := ⟨fun h => hr.shrinks h⟩

lemma bind {r : Reader β α} {k : α → Reader β γ} {n m : ℕ} (hr : Reads n r)
    (hk : ∀ a, Reads m (k a)) : Reads (n + m) (r >>= k) where
  le h := by
    obtain ⟨a, p', hp, hc⟩ := bind_eq_ok.mp h
    have := hr.le hp
    have := (hk a).le hc
    omega

lemma ite {c : Prop} [Decidable c] {r s : Reader β α} {n : ℕ} (hr : Reads n r) (hs : Reads n s) :
    Reads n (if c then r else s) := by
  split_ifs
  · exact hr
  · exact hs

lemma needing {r : Reader β α} {n m : ℕ} (hr : Reads n r) : Reads n (needing m r) where
  le h := by
    unfold Reader.needing at h
    split_ifs at h
    exact hr.le h

lemma times {r : Reader β α} {n : ℕ} (hr : Reads n r) (m : ℕ) : Reads (m * n) (times r m) := by
  induction m with
  | zero =>
    refine ⟨fun h => ?_⟩
    cases h
    simp
  | succ m ih =>
    rw [Nat.succ_mul, add_comm]
    exact hr.bind fun a => ih.bind fun as => zero (Incremental.pure _)

end Reads

/-! ### All that has come -/

variable (read : Reader β α) (record : σ → α → Option σ)

/-- One after another, until the reader waits. -/
def scan : ℕ → List β → σ → Option (σ × List β)
  | 0, _, _ => none
  | n + 1, p, ctx =>
    match read p with
    | .ok (a, rest) => (record ctx a).bind (scan n rest)
    | .error .wait => some (ctx, p)
    | .error .fail => none

/-- With as many turns as there can be. -/
def consume (p : List β) (ctx : σ) : Option (σ × List β) := scan read record (p.length + 1) p ctx

/-- Piece by piece. -/
def feed : List (List β) → σ × List β → Option (σ × List β)
  | [], s => some s
  | chunk :: chunks, (ctx, left) =>
    (consume read record (left ++ chunk) ctx).bind (feed chunks)

variable {read record} {p q rest left : List β} {ctx ctx' : σ} {a : α} {n m : ℕ}

lemma scan_of_ok (h : read p = .ok (a, rest)) :
    scan read record (n + 1) p ctx = (record ctx a).bind (scan read record n rest) := by
  rw [scan, h]

lemma scan_of_wait (h : read p = .error .wait) :
    scan read record (n + 1) p ctx = some (ctx, p) := by
  rw [scan, h]

lemma scan_of_fail (h : read p = .error .fail) : scan read record (n + 1) p ctx = none := by
  rw [scan, h]

/-- The number of turns does not matter where there are enough. -/
lemma scan_enough (hread : Reads 1 read) (hn : p.length < n) (hm : p.length < m) :
    scan read record n p ctx = scan read record m p ctx := by
  induction n generalizing m p ctx with
  | zero => omega
  | succ n ih =>
    obtain ⟨m, rfl⟩ : ∃ k, m = k + 1 := ⟨m - 1, by omega⟩
    cases hp : read p with
    | error e =>
      cases e with
      | wait => rw [scan_of_wait hp, scan_of_wait hp]
      | fail => rw [scan_of_fail hp, scan_of_fail hp]
    | ok x =>
      obtain ⟨a, rest⟩ := x
      have := hread.le hp
      rw [scan_of_ok hp, scan_of_ok hp]
      exact congrArg _ (funext fun ctx => ih (by omega) (by omega))

lemma consume_of_ok (hread : Reads 1 read) (h : read p = .ok (a, rest)) :
    consume read record p ctx = (record ctx a).bind (consume read record rest) := by
  have := hread.le h
  rw [consume, scan_of_ok h]
  exact congrArg _ (funext fun ctx => scan_enough hread (by omega) (by omega))

lemma consume_of_wait (h : read p = .error .wait) :
    consume read record p ctx = some (ctx, p) := scan_of_wait h

lemma consume_of_fail (h : read p = .error .fail) : consume read record p ctx = none :=
  scan_of_fail h

/-- What is left is what the reader waits at. -/
lemma wait_of_consume (hread : Reads 1 read) (h : consume read record p ctx = some (ctx', rest)) :
    read rest = .error .wait := by
  induction hlen : p.length using Nat.strong_induction_on generalizing p ctx with
  | _ k ih =>
    cases hp : read p with
    | error e =>
      cases e with
      | wait =>
        rw [consume_of_wait hp] at h
        cases h
        exact hp
      | fail =>
        rw [consume_of_fail hp] at h
        cases h
    | ok x =>
      obtain ⟨a, p'⟩ := x
      have := hread.le hp
      rw [consume_of_ok hread hp] at h
      obtain ⟨ctx₁, -, h⟩ := Option.bind_eq_some_iff.mp h
      exact ih p'.length (by omega) h rfl

variable (hr : Incremental read) (hread : Reads 1 read)
include hr hread

/-- What has come later is read as if it had been there. -/
lemma consume_append (q : List β) (h : consume read record p ctx = some (ctx', rest)) :
    consume read record (p ++ q) ctx = consume read record (rest ++ q) ctx' := by
  induction hlen : p.length using Nat.strong_induction_on generalizing p ctx with
  | _ k ih =>
    cases hp : read p with
    | error e =>
      cases e with
      | wait =>
        rw [consume_of_wait hp] at h
        cases h
        rfl
      | fail =>
        rw [consume_of_fail hp] at h
        cases h
    | ok x =>
      obtain ⟨a, p'⟩ := x
      have := hread.le hp
      rw [consume_of_ok hread hp] at h
      obtain ⟨ctx₁, hrec, h⟩ := Option.bind_eq_some_iff.mp h
      rw [consume_of_ok hread (hr.persists q hp), hrec, Option.bind_some]
      exact ih p'.length (by omega) h rfl

/-- **The pieces make no difference** to what is read. -/
theorem consume_of_feed {chunks : List (List β)} {x : σ × List β} (hleft : read left = .error .wait)
    (h : feed read record chunks (ctx, left) = some x) :
    consume read record (left ++ chunks.flatten) ctx = some x := by
  induction chunks generalizing left ctx with
  | nil =>
    obtain rfl := Option.some.inj h
    rw [List.flatten_nil, List.append_nil]
    exact consume_of_wait hleft
  | cons chunk chunks ih =>
    obtain ⟨⟨ctx₁, rest⟩, hchunk, h⟩ := Option.bind_eq_some_iff.mp h
    rw [List.flatten_cons, ← List.append_assoc, consume_append hr hread _ hchunk]
    exact ih (wait_of_consume hread hchunk) h

omit hread in
lemma suffix_scan (h : scan read record n p ctx = some (ctx', rest)) : rest <:+ p := by
  induction n generalizing p ctx with
  | zero => cases h
  | succ n ih =>
    cases hp : read p with
    | error e =>
      cases e with
      | wait =>
        rw [scan_of_wait hp] at h
        cases h
        exact List.suffix_rfl
      | fail =>
        rw [scan_of_fail hp] at h
        cases h
    | ok x =>
      obtain ⟨a, p'⟩ := x
      rw [scan_of_ok hp] at h
      obtain ⟨ctx₁, -, h⟩ := Option.bind_eq_some_iff.mp h
      exact (ih h).trans (hr.suffix hp)

omit hread in
lemma suffix_of_consume (h : consume read record p ctx = some (ctx', rest)) : rest <:+ p :=
  suffix_scan hr h

/-- Where something has been read, no more is left than has come. -/
lemma consume_left (hleft : read left = .error .wait)
    (h : consume read record (left ++ q) ctx = some (ctx', rest)) :
    rest = left ++ q ∨ rest.length ≤ q.length := by
  cases hp : read (left ++ q) with
  | error e =>
    cases e with
    | wait =>
      rw [consume_of_wait hp] at h
      cases h
      exact .inl rfl
    | fail =>
      rw [consume_of_fail hp] at h
      cases h
  | ok x =>
    obtain ⟨a, p'⟩ := x
    rw [consume_of_ok hread hp] at h
    obtain ⟨ctx₁, -, h⟩ := Option.bind_eq_some_iff.mp h
    exact .inr ((suffix_of_consume hr h).length_le.trans (hr.waits hleft hp))

/-! ### What is read of a piece -/

omit hr hread

/-- What the reader reads until it waits, and where. -/
inductive Parsed (read : Reader β α) : List β → List α → List β → Prop
  | wait {p : List β} (h : read p = .error .wait) : Parsed read p [] p
  | item {p p' rest : List β} {a : α} {as : List α} (h : read p = .ok (a, p'))
      (hrest : Parsed read p' as rest) : Parsed read p (a :: as) rest

namespace Parsed

variable {as as' : List α} {rest' : List β}

include hr in
/-- With more behind it, the reader goes on where it has waited. -/
lemma resume (h : Parsed read p as rest) (q : List β) (h' : Parsed read (p ++ q) as' rest') :
    ∃ as'', as' = as ++ as'' ∧ Parsed read (rest ++ q) as'' rest' := by
  induction h generalizing as' with
  | wait h => exact ⟨as', rfl, h'⟩
  | item h hrest ih =>
    have hext := hr.persists q h
    cases h' with
    | wait hwait => simp [hwait] at hext
    | item h' hrest' =>
      rw [hext] at h'
      cases h'
      obtain ⟨as'', rfl, hrest''⟩ := ih hrest'
      exact ⟨as'', rfl, hrest''⟩

include hr hread in
lemma consume_append (h : Parsed read p as rest) (q : List β) :
    consume read record (p ++ q) ctx =
      (as.foldlM record ctx).bind fun ctx => consume read record (rest ++ q) ctx := by
  induction h generalizing ctx with
  | wait h => rfl
  | item h hrest ih =>
    rw [consume_of_ok hread (hr.persists q h), List.foldlM_cons]
    cases record ctx _ with
    | none => rfl
    | some ctx => exact ih

include hread in
/-- What has been read is recorded. -/
lemma consume (h : Parsed read p as rest) :
    consume read record p ctx = (as.foldlM record ctx).map fun ctx => (ctx, rest) := by
  induction h generalizing ctx with
  | wait h => exact consume_of_wait h
  | item h hrest ih =>
    rw [consume_of_ok hread h, List.foldlM_cons]
    cases record ctx _ with
    | none => rfl
    | some ctx => exact ih

end Parsed

end SteepSystem.Lib.Feeds
