import Mathlib.Tactic

/-!
Files with a position: a list of bytes, a place in it, and a limit that growing may not pass. A
call that would break a limit is refused and leaves the file as it is.
-/

namespace SteepSystem.Lib

structure File where
  bytes : List UInt8
  pos : ℕ
  maxLength : ℕ
  writable : Bool

namespace File

variable (f : File)

/-- A length the file may be given: a shorter one always, a longer one within the limit and if
there is memory for it. -/
def Allows (n : ℕ) (mem : Bool) : Prop :=
  f.writable ∧ (n ≤ f.bytes.length ∨ n ≤ f.maxLength ∧ mem)

instance (n : ℕ) (mem : Bool) : Decidable (f.Allows n mem) :=
  inferInstanceAs (Decidable (_ ∧ _))

/-- Cut to `n` bytes, or filled up with zeros to that many. -/
def resize (n : ℕ) : List UInt8 := f.bytes.take n ++ List.replicate (n - f.bytes.length) 0

/-- `data` in place of the bytes from the position on, as far as it goes. -/
def overwrite (data : List UInt8) : List UInt8 :=
  f.bytes.take f.pos ++ data ++ f.bytes.drop (f.pos + data.length)

def read (n : ℕ) : List UInt8 × File :=
  let data := (f.bytes.drop f.pos).take n
  (data, { f with pos := f.pos + data.length })

def write (data : List UInt8) (mem : Bool) : Bool × File :=
  if f.Allows (f.pos + data.length) mem then
    (true, { f with bytes := f.overwrite data, pos := f.pos + data.length })
  else (false, f)

def setLength (n : ℕ) (mem : Bool) : Bool × File :=
  if f.Allows n mem then (true, { f with bytes := f.resize n, pos := min f.pos n })
  else (false, f)

/-- To a place counted from the start; one before the start is the start, one past the end
makes the file longer. -/
def seek (target : ℤ) (mem : Bool) : Bool × File :=
  if target ≤ f.bytes.length then (true, { f with pos := target.toNat })
  else if f.Allows target.toNat mem then
    (true, { f with bytes := f.resize target.toNat, pos := target.toNat })
  else (false, f)

/-- The position is within the bytes. -/
def Sound : Prop := f.pos ≤ f.bytes.length

variable {f}

lemma length_resize (n : ℕ) : (f.resize n).length = n := by
  unfold resize
  rw [List.length_append, List.length_take, List.length_replicate]
  omega

lemma length_overwrite (h : f.Sound) (data : List UInt8) :
    (f.overwrite data).length = max f.bytes.length (f.pos + data.length) := by
  unfold Sound at h
  unfold overwrite
  rw [List.length_append, List.length_append, List.length_take, List.length_drop]
  omega

/-- Making room first does not change what a write past the end leaves. -/
lemma overwrite_resize (h : f.Sound) {data : List UInt8}
    (hgrow : f.bytes.length ≤ f.pos + data.length) :
    (f.resize (f.pos + data.length)).take f.pos ++ data ++
      (f.resize (f.pos + data.length)).drop (f.pos + data.length) = f.overwrite data := by
  unfold Sound at h
  have hend : (f.resize (f.pos + data.length)).drop (f.pos + data.length) = [] :=
    List.drop_eq_nil_of_le (by rw [length_resize])
  have hend' : f.bytes.drop (f.pos + data.length) = [] := List.drop_eq_nil_of_le hgrow
  have hfront : (f.resize (f.pos + data.length)).take f.pos = f.bytes.take f.pos := by
    unfold resize
    rw [List.take_append_of_le_length (by rw [List.length_take]; omega), List.take_take,
      Nat.min_eq_left (by omega)]
  rw [hend, hfront, overwrite, hend']

/-- What every call keeps: the position stays inside, the limit is the same one, and the file
is within its old length or its limit. -/
structure Kept (f f' : File) : Prop where
  sound : f'.Sound
  limit : f'.maxLength = f.maxLength
  writable : f'.writable = f.writable
  length : f'.bytes.length ≤ max f.bytes.length f.maxLength

lemma Kept.refl (h : f.Sound) : Kept f f := ⟨h, rfl, rfl, le_max_left _ _⟩

lemma Kept.trans {f₁ f₂ f₃ : File} (h : Kept f₁ f₂) (h' : Kept f₂ f₃) : Kept f₁ f₃ where
  sound := h'.sound
  limit := h'.limit.trans h.limit
  writable := h'.writable.trans h.writable
  length := by
    have h1 := h.length
    have h2 := h'.length
    rw [h.limit] at h2
    omega

theorem kept_read (h : f.Sound) (n : ℕ) : Kept f (f.read n).2 := by
  refine ⟨?_, rfl, rfl, le_max_left _ _⟩
  unfold Sound at h ⊢
  simp only [read, List.length_take, List.length_drop]
  omega

theorem kept_write (h : f.Sound) (data : List UInt8) (mem : Bool) : Kept f (f.write data mem).2 := by
  unfold write
  split_ifs with hallow
  · have hlen := length_overwrite h data
    refine ⟨?_, rfl, rfl, ?_⟩
    · unfold Sound
      rw [hlen]
      exact le_max_right _ _
    · rw [hlen]
      obtain ⟨-, hin | ⟨hmax, -⟩⟩ := hallow <;> omega
  · exact .refl h

theorem kept_setLength (h : f.Sound) (n : ℕ) (mem : Bool) : Kept f (f.setLength n mem).2 := by
  unfold setLength
  split_ifs with hallow
  · refine ⟨?_, rfl, rfl, ?_⟩
    · unfold Sound
      rw [length_resize]
      exact min_le_right _ _
    · rw [length_resize]
      obtain ⟨-, hin | ⟨hmax, -⟩⟩ := hallow <;> omega
  · exact .refl h

theorem kept_seek (h : f.Sound) (target : ℤ) (mem : Bool) : Kept f (f.seek target mem).2 := by
  unfold seek
  split_ifs with hin hallow
  · exact ⟨show target.toNat ≤ f.bytes.length by omega, rfl, rfl, le_max_left _ _⟩
  · refine ⟨?_, rfl, rfl, ?_⟩
    · unfold Sound
      rw [length_resize]
    · rw [length_resize]
      obtain ⟨-, hin | ⟨hmax, -⟩⟩ := hallow <;> omega
  · exact .refl h

end File

end SteepSystem.Lib
