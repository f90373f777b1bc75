import SteepSystem.Lib.Bytes
import SteepSystem.Lib.Programs

/-!
The cursor of an `EXT_PULL` (`LIBRARY/mapi_lib/ext_buffer.c`). The `ext_buffer_pull_*` functions
are programs over a dozen operations: reads that check the space left, moves of the cursor to a
computed place, allocations and error returns. `data_size` and `offset` are numbers of 32 bits.
-/

namespace SteepSystem.ExtBuffer

open SteepSystem.Lib.Programs

abbrev Bytes := List UInt8

/-- The `EXT_ERR_*` codes that the pull functions return. -/
inductive ExtErr
  | format | bufsize | alloc | badSwitch | charcnv
  deriving DecidableEq, Repr

/-- How a call ends without a result: it returns a code, it has read beyond the data, or it
would have to recurse deeper than the depth it is modelled to. -/
inductive Failure
  | status (e : ExtErr)
  | outOfBounds
  | unfinished
  deriving DecidableEq, Repr

/-- What an `EXT_PULL` holds beside its offset. A failed allocation ends a call at the offset it
is made at, so it is enough to know at which offsets allocations succeed. -/
structure Input where
  data : Bytes
  size_lt : data.length < 2 ^ 32
  alloc : ℕ → Bool

def Input.size (b : Input) : ℕ := b.data.length

inductive PullOp
  /-- A scalar of `n` bytes, whose check is made in 64 bits. -/
  | fixed (n : ℕ)
  /-- `ext_buffer_pull_bytes`, whose check is made in 32 bits. -/
  | bytes (n : ℕ)
  /-- `ext_buffer_pull_advance` -/
  | advance (n : ℕ)
  /-- The string at the cursor with its terminator, copied to an allocation. -/
  | peekString
  /-- The UTF-16 string at the cursor with its terminator, likewise. -/
  | peekWstring
  /-- Everything up to the end of the data. -/
  | rest
  | tell
  /-- The cursor is set to the end of a structure, unless it has passed it. -/
  | close (offset : ℕ)
  | alloc
  | fail (e : ExtErr)
  | deeper

@[reducible] def PullOp.Res : PullOp → Type
  | fixed _ | bytes _ | peekString | peekWstring | rest => Bytes
  | tell => ℕ
  | advance _ | close _ | alloc => Unit
  | fail _ | deeper => Empty

abbrev Pull := Program PullOp PullOp.Res

abbrev Outcome (α : Type) := Except (Failure × ℕ) (α × ℕ)

def stop {α : Type} (e : ExtErr) (off : ℕ) : Outcome α := .error (.status e, off)

/-- `n` bytes of the data, if they are there. -/
def Input.fetch (b : Input) (off n : ℕ) (next : ℕ) : Outcome Bytes :=
  if off + n ≤ b.size then .ok ((b.data.drop off).take n, next)
  else .error (.outOfBounds, off)

/-- `strnlen` from the cursor on. -/
def Input.strnlen (b : Input) (off : ℕ) : ℕ :=
  ((b.data.drop off).takeWhile (· ≠ 0)).length

/-- The index of the first pair of zero bytes that starts at an even index. -/
def zeroUnit : Bytes → Option ℕ
  | c :: d :: l => if c = 0 ∧ d = 0 then some 0 else (zeroUnit l).map (· + 2)
  | _ => none

def exec (b : Input) : (o : PullOp) → ℕ → Outcome o.Res
  | .fixed n, off =>
    if b.size < n ∨ b.size < off + n then stop .bufsize off else b.fetch off n (off + n)
  | .bytes n, off =>
    if b.size < n ∨ b.size < (off + n) % 2 ^ 32 then stop .bufsize off
    else b.fetch off n ((off + n) % 2 ^ 32)
  | .advance n, off =>
    let off := (off + n) % 2 ^ 32
    if b.size < off then stop .bufsize off else .ok ((), off)
  | .peekString, off =>
    let len := (b.strnlen off + 1) % 2 ^ 32
    if b.size ≤ off then stop .bufsize off
    else if b.size - off < len then stop .bufsize off
    else if 2 ^ 31 ≤ len ∨ ¬ b.alloc off then stop .alloc off
    else b.fetch off len off
  | .peekWstring, off =>
    if b.size ≤ off ∨ 2 ^ 31 ≤ b.size - off then stop .bufsize off
    else
      match zeroUnit (b.data.drop off) with
      | none => stop .bufsize off
      | some i =>
        if 2 ^ 31 ≤ 2 * (i + 2) ∨ ¬ b.alloc off then stop .alloc off
        else b.fetch off (i + 2) off
  | .rest, off =>
    if b.size < off then stop .bufsize off
    else if ¬ b.alloc off then stop .alloc off
    else b.fetch off (b.size - off) b.size
  | .tell, off => .ok (off, off)
  | .close t, off => if t < off then stop .format off else .ok ((), t)
  | .alloc, off => if b.alloc off then .ok ((), off) else stop .alloc off
  | .fail e, off => stop e off
  | .deeper, off => .error (.unfinished, off)

def Input.run {α : Type} (b : Input) (p : Pull α) (off : ℕ) : Outcome α :=
  Program.run (exec b) p off

def readFixed (n : ℕ) : Pull Bytes := .op (.fixed n) .ret

def readBytes (n : ℕ) : Pull Bytes := .op (.bytes n) .ret

def skip (n : ℕ) : Pull Unit := .op (.advance n) .ret

def peekString : Pull Bytes := .op .peekString .ret

def peekWstring : Pull Bytes := .op .peekWstring .ret

def readRest : Pull Bytes := .op .rest .ret

def tell : Pull ℕ := .op .tell .ret

def closeAt (offset : ℕ) : Pull Unit := .op (.close offset) .ret

def alloc : Pull Unit := .op .alloc .ret

def fail {α : Type} (e : ExtErr) : Pull α := .op (.fail e) nofun

def deeper {α : Type} : Pull α := .op .deeper nofun

/-! What an admitted operation does to the cursor. -/

/-- A sum that the code forms in 32 bits does not wrap where it decides what is read or skipped,
and a structure does not end beyond the data. -/
def Fits (b : Input) : PullOp → ℕ → Prop
  | .bytes n, off => n ≤ b.size → off + n < 2 ^ 32
  | .advance n, off => off + n < 2 ^ 32
  | .close t, off => off ≤ t → t ≤ b.size
  | _, _ => True

instance (b : Input) : ∀ o off, Decidable (Fits b o off)
  | .bytes n, off => inferInstanceAs (Decidable (n ≤ b.size → off + n < 2 ^ 32))
  | .advance n, off => inferInstanceAs (Decidable (off + n < 2 ^ 32))
  | .close t, off => inferInstanceAs (Decidable (off ≤ t → t ≤ b.size))
  | .fixed _, _ | .peekString, _ | .peekWstring, _ | .rest, _ | .tell, _ | .alloc, _
  | .fail _, _ | .deeper, _ => .isTrue trivial

/-- The operations that do not succeed with the cursor beyond the data. -/
def Checks : PullOp → Prop
  | .tell | .alloc => False
  | _ => True

variable {b : Input}

lemma fetch_eq_ok {off n next t : ℕ} {bs : Bytes} (h : b.fetch off n next = .ok (bs, t)) :
    off + n ≤ b.size ∧ bs = (b.data.drop off).take n ∧ t = next := by
  unfold Input.fetch at h
  split_ifs at h with hle
  cases h
  exact ⟨hle, rfl, rfl⟩

lemma zeroUnit_lt {l : Bytes} {i : ℕ} (h : zeroUnit l = some i) : i + 2 ≤ l.length := by
  induction l using zeroUnit.induct generalizing i with
  | case1 c d l hz =>
    rw [zeroUnit, if_pos hz] at h
    cases h
    simp
  | case2 c d l hz ih =>
    rw [zeroUnit, if_neg hz] at h
    obtain ⟨j, hj, rfl⟩ := Option.map_eq_some_iff.mp h
    have := ih hj
    simp only [List.length_cons]
    omega
  | case3 l hl =>
    rw [zeroUnit] at h
    · cases h
    · exact hl

/-- An operation that succeeds leaves the cursor where it was or further on, within the data if
it checks it. -/
lemma exec_ok {o : PullOp} {off t : ℕ} {r : o.Res} (hoff : off < 2 ^ 32) (ha : Fits b o off)
    (h : exec b o off = .ok (r, t)) :
    off ≤ t ∧ t < 2 ^ 32 ∧ (off ≤ b.size ∨ Checks o → t ≤ b.size) := by
  have hsize := b.size_lt
  change b.size < 2 ^ 32 at hsize
  cases o with
  | fixed n =>
    simp only [exec] at h
    split_ifs at h
    · cases h
    · obtain ⟨hle, -, rfl⟩ := fetch_eq_ok h
      omega
  | bytes n =>
    simp only [exec] at h
    split_ifs at h with hc
    · cases h
    · obtain ⟨hle, -, rfl⟩ := fetch_eq_ok h
      omega
  | advance n =>
    have ha : off + n < 2 ^ 32 := ha
    simp only [exec, Nat.mod_eq_of_lt ha] at h
    split_ifs at h
    · cases h
    · cases h
      omega
  | peekString =>
    simp only [exec] at h
    split_ifs at h
    all_goals first
      | cases h
      | obtain ⟨hle, -, rfl⟩ := fetch_eq_ok h
        omega
  | peekWstring =>
    simp only [exec] at h
    split_ifs at h
    · cases h
    · split at h
      · cases h
      · split_ifs at h
        · cases h
        · obtain ⟨hle, -, rfl⟩ := fetch_eq_ok h
          omega
  | rest =>
    simp only [exec] at h
    split_ifs at h
    · cases h
    · obtain ⟨hle, -, rfl⟩ := fetch_eq_ok h
      omega
    · cases h
  | tell =>
    cases h
    simp [Checks]
    omega
  | close e =>
    have ha : off ≤ e → e ≤ b.size := ha
    simp only [exec] at h
    split_ifs at h
    · cases h
    · cases h
      omega
  | alloc =>
    simp only [exec] at h
    split_ifs at h
    · cases h
      simp [Checks]
      omega
    · cases h
  | fail e => cases h
  | deeper => cases h

/-- An operation that fails has read nothing beyond the data. -/
lemma exec_error {o : PullOp} {off t : ℕ} {f : Failure} (hoff : off < 2 ^ 32) (ha : Fits b o off)
    (h : exec b o off = .error (f, t)) : f ≠ .outOfBounds ∧ t < 2 ^ 32 := by
  have hstop : ∀ {α : Type} {e : ExtErr} {u : ℕ}, u < 2 ^ 32 →
      (stop e u : Outcome α) = .error (f, t) → f ≠ .outOfBounds ∧ t < 2 ^ 32 := by
    intro α e u hu hs
    cases hs
    exact ⟨by simp, hu⟩
  have hfetch : ∀ {n next : ℕ}, off + n ≤ b.size → b.fetch off n next ≠ .error (f, t) := by
    intro n next hle hs
    rw [Input.fetch, if_pos hle] at hs
    cases hs
  cases o with
  | fixed n =>
    simp only [exec] at h
    split_ifs at h
    · exact hstop hoff h
    · exact absurd h (hfetch (by omega))
  | bytes n =>
    have ha : n ≤ b.size → off + n < 2 ^ 32 := ha
    simp only [exec] at h
    split_ifs at h with hc
    · exact hstop hoff h
    · push Not at hc
      have hlt := ha hc.1
      rw [Nat.mod_eq_of_lt hlt] at hc
      exact absurd h (hfetch (by omega))
  | advance n =>
    simp only [exec] at h
    split_ifs at h
    exact hstop (by omega) h
  | peekString =>
    simp only [exec] at h
    split_ifs at h
    all_goals first
      | exact hstop hoff h
      | exact absurd h (hfetch (by omega))
  | peekWstring =>
    simp only [exec] at h
    split_ifs at h
    · exact hstop hoff h
    · split at h
      · exact hstop hoff h
      · rename_i i hi
        have hi := zeroUnit_lt hi
        rw [List.length_drop] at hi
        have hle : off + (i + 2) ≤ b.size := by
          unfold Input.size at *
          omega
        split_ifs at h
        · exact hstop hoff h
        · exact absurd h (hfetch hle)
  | rest =>
    simp only [exec] at h
    split_ifs at h
    · exact hstop hoff h
    · exact absurd h (hfetch (by omega))
    · exact hstop hoff h
  | tell => cases h
  | close e =>
    simp only [exec] at h
    split_ifs at h
    exact hstop hoff h
  | alloc =>
    simp only [exec] at h
    split_ifs at h
    exact hstop hoff h
  | fail e => exact hstop hoff h
  | deeper =>
    cases h
    exact ⟨by simp, hoff⟩

/-- **The cursor of a pull function.** A program whose operations fit reads nothing beyond the
data and moves the cursor forward only; it succeeds with the cursor within the data, if it
started there or checks it on its way. -/
theorem run_fits {α : Type} (p : Pull α) {off : ℕ} (hoff : off < 2 ^ 32)
    (ha : Program.Admits (exec b) (Fits b) p off) :
    (∀ a t, b.run p off = .ok (a, t) → off ≤ t ∧ t < 2 ^ 32 ∧
      (off ≤ b.size ∨ Program.Performs Checks p → t ≤ b.size)) ∧
    ∀ f t, b.run p off = .error (f, t) → f ≠ .outOfBounds ∧ t < 2 ^ 32 := by
  have hdone : ∀ (o : PullOp) s r t, s < 2 ^ 32 → Fits b o s → exec b o s = .ok (r, t) →
      t < 2 ^ 32 ∧ s ≤ t := by
    intro o s r t hs hadm hx
    obtain ⟨hle, ht, -⟩ := exec_ok hs hadm hx
    exact ⟨ht, hle⟩
  have hfailed : ∀ (o : PullOp) s e, s < 2 ^ 32 → Fits b o s → exec b o s = .error e →
      e.1 ≠ .outOfBounds ∧ e.2 < 2 ^ 32 :=
    fun o s e hs hadm hx => exec_error hs hadm hx
  have hrule := Program.run_rule (I := fun s => s < 2 ^ 32) (R := fun s t => s ≤ t)
    (E := fun _ (e : Failure × ℕ) => e.1 ≠ .outOfBounds ∧ e.2 < 2 ^ 32) le_refl le_trans
    (fun _ he => he) hdone hfailed p hoff ha
  constructor
  · intro a t h
    obtain ⟨ht, hle⟩ := hrule.1 a t h
    refine ⟨hle, ht, fun hp => ?_⟩
    have hkeep : ∀ (o : PullOp) s r t, s < 2 ^ 32 → Fits b o s → exec b o s = .ok (r, t) →
        s ≤ b.size ∨ Checks o → t ≤ b.size :=
      fun o s r t hs hadm hx => (exec_ok hs hadm hx).2.2
    exact Program.run_establishes (fun o s r t hs hadm hx => (hdone o s r t hs hadm hx).1)
      hkeep p hoff ha h hp
  · intro f t h
    exact hrule.2 (f, t) h

end SteepSystem.ExtBuffer
