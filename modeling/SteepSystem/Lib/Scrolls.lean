import Mathlib.Tactic

/-!
Scrolls: a sequence with a place for reading and one for writing, neither behind its end.
-/

namespace SteepSystem.Lib

variable {α : Type*}

structure Scroll (α : Type*) where
  cells : List α
  read : ℕ
  write : ℕ
  read_le : read ≤ cells.length
  write_le : write ≤ cells.length

namespace Scroll

def empty : Scroll α := ⟨[], 0, 0, le_rfl, le_rfl⟩

def rest (s : Scroll α) : List α := s.cells.drop s.read

/-- In place of what is at the writing place, and beyond the end if it is longer. -/
def put (s : Scroll α) (l : List α) : Scroll α where
  cells := s.cells.take s.write ++ l ++ s.cells.drop (s.write + l.length)
  read := s.read
  write := s.write + l.length
  read_le := by
    have := s.read_le
    simp only [List.length_append, List.length_take, List.length_drop]
    omega
  write_le := by
    have := s.write_le
    simp only [List.length_append, List.length_take, List.length_drop]
    omega

def readAt (s : Scroll α) (n : ℕ) : Scroll α :=
  ⟨s.cells, min n s.cells.length, s.write, Nat.min_le_right _ _, s.write_le⟩

def writeAt (s : Scroll α) (n : ℕ) : Scroll α :=
  ⟨s.cells, s.read, min n s.cells.length, s.read_le, Nat.min_le_right _ _⟩

/-- A place is kept between the beginning and the end. -/
def clamp (s : Scroll α) (target : ℤ) : ℕ := min target.toNat s.cells.length

/-- The cells up to the first one that is `stop`, of those that are still to be read. -/
def line [DecidableEq α] (stop : α) (s : Scroll α) : List α := s.rest.takeWhile (· ≠ stop)

variable {s t : Scroll α}

lemma ext_fields (hcells : s.cells = t.cells) (hread : s.read = t.read)
    (hwrite : s.write = t.write) : s = t := by
  cases s
  cases t
  cases hcells
  cases hread
  cases hwrite
  rfl

@[simp] lemma length_rest (s : Scroll α) : s.rest.length = s.cells.length - s.read :=
  List.length_drop

lemma put_append (s : Scroll α) (l m : List α) : (s.put l).put m = s.put (l ++ m) := by
  have hlen : (s.cells.take s.write).length = s.write := by
    rw [List.length_take, min_eq_left s.write_le]
  refine ext_fields ?_ rfl ?_
  · dsimp only [put]
    rw [List.take_left' (by rw [List.length_append, hlen]), List.length_append, List.drop_append,
      List.drop_eq_nil_of_le (by rw [List.length_append, hlen]; omega), List.nil_append,
      List.drop_drop, List.length_append, hlen]
    simp only [List.append_assoc]
    congr 3
    congr 1
    omega
  · dsimp only [put]
    rw [List.length_append, Nat.add_assoc]

lemma length_line_le [DecidableEq α] (stop : α) (s : Scroll α) :
    (s.line stop).length ≤ s.rest.length :=
  (List.takeWhile_prefix _).length_le

end Scroll

end SteepSystem.Lib
