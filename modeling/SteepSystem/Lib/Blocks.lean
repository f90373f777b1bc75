import Mathlib.Data.List.GetD
import Mathlib.Tactic

/-!
Sequences kept in blocks of one size: what is at a place of the sequence, what is read within a
block, and what a write within a block changes.
-/

namespace SteepSystem.Lib.Blocks

variable {α : Type*} (B : ℕ)

/-- The memory of a block; how much of it belongs to the sequence is not recorded. -/
abbrev Block (α : Type*) := ℕ → α

def Block.read (b : Block α) (pos n : ℕ) : List α := (List.range n).map fun i => b (pos + i)

def Block.fill (b : Block α) (pos : ℕ) (l : List α) : Block α := fun j =>
  if pos ≤ j then l.getD (j - pos) (b j) else b j

@[simp] lemma length_blockRead (b : Block α) (pos n : ℕ) : (b.read pos n).length = n := by
  simp [Block.read]

variable [Inhabited α]

def cell (blocks : List (Block α)) (p : ℕ) : α := (blocks.getD (p / B) default) (p % B)

/-- So many cells from a place on. -/
def slice (blocks : List (Block α)) (p n : ℕ) : List α :=
  (List.range n).map fun i => cell B blocks (p + i)

/-- The list `l` has been written from `p` on, and nothing else has changed. -/
def Written (blocks blocks' : List (Block α)) (p : ℕ) (l : List α) : Prop :=
  blocks'.length = blocks.length ∧
    ∀ q < B * blocks.length, cell B blocks' q =
      if p ≤ q then l.getD (q - p) (cell B blocks q) else cell B blocks q

variable {B} {blocks blocks' blocks'' : List (Block α)} {b : Block α}

@[simp] lemma length_slice (p n : ℕ) : (slice B blocks p n).length = n := by simp [slice]

lemma slice_append (p m n : ℕ) :
    slice B blocks p m ++ slice B blocks (p + m) n = slice B blocks p (m + n) := by
  simp [slice, List.range_add, Nat.add_assoc]

lemma take_slice {p m n : ℕ} (h : m ≤ n) : (slice B blocks p n).take m = slice B blocks p m := by
  obtain ⟨k, rfl⟩ := Nat.exists_eq_add_of_le h
  rw [← slice_append, List.take_left' (length_slice p m)]

lemma drop_slice {p m n : ℕ} : (slice B blocks p (m + n)).drop m = slice B blocks (p + m) n := by
  rw [← slice_append, List.drop_left' (length_slice p m)]

lemma cell_mul_add {k j : ℕ} (h : blocks[k]? = some b) (hj : j < B) :
    cell B blocks (k * B + j) = b j := by
  have hB : 0 < B := by omega
  rw [cell, Nat.mul_comm, Nat.mul_add_div hB, Nat.div_eq_of_lt hj, Nat.add_zero, Nat.mul_add_mod,
    Nat.mod_eq_of_lt hj, List.getD_eq_getElem?_getD, h, Option.getD_some]

lemma blockRead_eq {k pos n : ℕ} (h : blocks[k]? = some b) (hn : pos + n ≤ B) :
    b.read pos n = slice B blocks (k * B + pos) n := by
  refine List.map_congr_left fun i hi => ?_
  have hi := List.mem_range.mp hi
  rw [Nat.add_assoc, cell_mul_add h (by omega)]

lemma cell_append_left {q : ℕ} (h : q < B * blocks.length) (more : List (Block α)) :
    cell B (blocks ++ more) q = cell B blocks q := by
  have hq : q / B < blocks.length := Nat.div_lt_of_lt_mul h
  rw [cell, cell, List.getD_eq_getElem?_getD, List.getElem?_append_left hq,
    List.getD_eq_getElem?_getD]

lemma slice_append_left {p n : ℕ} (h : p + n ≤ B * blocks.length) (more : List (Block α)) :
    slice B (blocks ++ more) p n = slice B blocks p n := by
  refine List.map_congr_left fun i hi => ?_
  have hi := List.mem_range.mp hi
  exact cell_append_left (by omega) more

/-- A write that stays in its block. -/
lemma written_modify {k pos : ℕ} {l : List α} (hk : k < blocks.length) (h : pos + l.length ≤ B) :
    Written B blocks (blocks.modify k fun b => b.fill pos l) (k * B + pos) l := by
  refine ⟨List.length_modify .., fun q hq => ?_⟩
  have hB : 0 < B := by
    rcases Nat.eq_zero_or_pos B with rfl | hB
    · omega
    · exact hB
  have hdiv := Nat.div_add_mod' q B
  have hmod := Nat.mod_lt q hB
  rw [cell, List.getD_eq_getElem?_getD, List.getElem?_modify]
  by_cases hqk : q / B = k
  · subst hqk
    rw [List.getElem?_eq_getElem hk]
    simp only [if_true, Option.map_eq_map, Option.map_some, Option.getD_some, Block.fill]
    have hcell : cell B blocks q = blocks[q / B] (q % B) := by
      rw [cell, List.getD_eq_getElem?_getD, List.getElem?_eq_getElem hk, Option.getD_some]
    rw [hcell]
    by_cases hpos : pos ≤ q % B
    · rw [if_pos hpos, if_pos (by omega)]
      congr 1
      omega
    · rw [if_neg hpos, if_neg (by omega)]
  · have hne : ¬k = q / B := fun heq => hqk heq.symm
    simp only [if_neg hne, Option.map_eq_map, Option.map_id']
    rw [← List.getD_eq_getElem?_getD, ← cell]
    split_ifs with hle
    · have hlt : k < q / B := by
        refine lt_of_le_of_ne ?_ hne
        exact (Nat.le_div_iff_mul_le hB).mpr (by omega)
      have hmul := Nat.mul_le_mul_right B (show k + 1 ≤ q / B from hlt)
      rw [Nat.succ_mul] at hmul
      rw [List.getD_eq_getElem?_getD, List.getElem?_eq_none (by omega), Option.getD_none]
    · rfl

lemma Written.refl (p : ℕ) : Written B blocks blocks p [] := by
  refine ⟨rfl, fun q _ => ?_⟩
  simp

lemma Written.append {p : ℕ} {l m : List α} (h : Written B blocks blocks' p l)
    (h' : Written B blocks' blocks'' (p + l.length) m) : Written B blocks blocks'' p (l ++ m) := by
  refine ⟨h'.1.trans h.1, fun q hq => ?_⟩
  rw [h'.2 q (by rw [h.1]; exact hq), h.2 q hq]
  by_cases hp : p ≤ q
  · rw [if_pos hp]
    by_cases hpl : p + l.length ≤ q
    · rw [if_pos hpl, if_pos hp, List.getD_append_right _ _ _ _ (by omega),
        List.getD_eq_default l _ (by omega)]
      congr 1
      omega
    · rw [if_neg hpl, if_pos hp, List.getD_append _ _ _ _ (by omega)]
  · rw [if_neg hp, if_neg (by omega)]
    simp [hp]

/-- What a write makes of the first cells. -/
lemma Written.slice_zero {p n : ℕ} {l : List α} (h : Written B blocks blocks' p l) (hp : p ≤ n)
    (hn : n ≤ B * blocks.length) (hl : p + l.length ≤ B * blocks.length) :
    slice B blocks' 0 (max n (p + l.length)) =
      (slice B blocks 0 n).take p ++ l ++ (slice B blocks 0 n).drop (p + l.length) := by
  apply List.ext_getElem
  · simp only [length_slice, List.length_append, List.length_take, List.length_drop]
    omega
  intro q hq hq'
  rw [length_slice] at hq
  have hcell := h.2 q (by omega)
  simp only [slice, List.getElem_map, List.getElem_range, Nat.zero_add]
  rw [hcell]
  by_cases hpq : p ≤ q
  · rw [if_pos hpq]
    by_cases hlq : q < p + l.length
    · rw [List.getElem_append_left (by simp; omega), List.getElem_append_right (by simp; omega),
        List.getD_eq_getElem _ _ (by omega)]
      congr 1
      simp
      omega
    · rw [List.getD_eq_default _ _ (by omega), List.getElem_append_right (by simp; omega)]
      simp only [List.getElem_drop, List.getElem_map, List.getElem_range, List.length_append,
        List.length_take, List.length_map, List.length_range]
      congr 1
      omega
  · rw [if_neg hpq, List.getElem_append_left (by simp; omega),
      List.getElem_append_left (by simp; omega)]
    simp

end SteepSystem.Lib.Blocks
