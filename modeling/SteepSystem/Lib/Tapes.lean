import Mathlib.Tactic

/-!
Tapes: what has been written, in order, and how much of it has been read.
-/

namespace SteepSystem.Lib

variable {α : Type*}

structure Tape (α : Type*) where
  written : List α
  read : ℕ
  read_le : read ≤ written.length

lemma zero_le_length_nil : 0 ≤ ([] : List α).length := le_rfl

namespace Tape

def empty : Tape α := ⟨[], 0, zero_le_length_nil⟩

def unread (t : Tape α) : List α := t.written.drop t.read

def write (t : Tape α) (l : List α) : Tape α :=
  ⟨t.written ++ l, t.read, t.read_le.trans (by simp)⟩

/-- The last `n` are taken back; what of them had been read goes with them. -/
def unwrite (t : Tape α) (n : ℕ) : Tape α :=
  ⟨t.written.take (t.written.length - n), min t.read (t.written.length - n), by simp⟩

/-- The next `n` are read, or all that is left. -/
def skip (t : Tape α) (n : ℕ) : Tape α :=
  ⟨t.written, min (t.read + n) t.written.length, Nat.min_le_right _ _⟩

/-- The last `n` that were read are to be read again. -/
def back (t : Tape α) (n : ℕ) : Tape α := ⟨t.written, t.read - n, (Nat.sub_le _ _).trans t.read_le⟩

def rewind (t : Tape α) : Tape α := ⟨t.written, 0, Nat.zero_le _⟩

variable {t u : Tape α} {n : ℕ}

lemma ext_fields (hwritten : t.written = u.written) (hread : t.read = u.read) : t = u := by
  cases t
  cases u
  cases hwritten
  cases hread
  rfl

@[simp] lemma length_unread (t : Tape α) : t.unread.length = t.written.length - t.read :=
  List.length_drop

lemma skip_back (h : n ≤ t.read) : (t.back n).skip n = t := by
  refine ext_fields rfl ?_
  have := t.read_le
  change min (t.read - n + n) t.written.length = t.read
  omega

end Tape

end SteepSystem.Lib
