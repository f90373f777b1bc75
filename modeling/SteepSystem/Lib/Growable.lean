import Mathlib.Tactic

/-!
Arrays in an allocated block whose size nobody records: the block with what has been written to
its slots, and a count of the elements. An access outside the block has no result.
-/

namespace SteepSystem.Lib.Growable

variable {α : Type*}

structure Arr (α : Type*) where
  block : List (Option α)
  count : ℕ

namespace Arr

/-- A block of so many slots, without elements. -/
def empty (slots : ℕ) : Arr α := ⟨List.replicate slots none, 0⟩

/-- The elements, if all of them are in the block and have been written. -/
def elems (a : Arr α) : Option (List α) :=
  if a.count ≤ a.block.length then (a.block.take a.count).mapM id else none

/-- The block moved to one of another size. -/
def regrow (a : Arr α) (slots : ℕ) : Arr α :=
  { a with block := a.block.take slots ++ List.replicate (slots - a.block.length) none }

def write (a : Arr α) (i : ℕ) (x : Option α) : Option (Arr α) :=
  if i < a.block.length then some { a with block := a.block.set i x } else none

/-- The elements from behind a place on moved over that place, with the count already lowered. -/
def closeGap (a : Arr α) (i : ℕ) : Option (Arr α) :=
  if a.count + 1 ≤ a.block.length then
    some { a with block := a.block.take i ++ (a.block.drop (i + 1)).take (a.count - i) ++
      a.block.drop a.count }
  else none

/-- The elements of the array, which lie in its block. -/
structure Holds (a : Arr α) (xs : List α) : Prop where
  count_eq : a.count = xs.length
  block_eq : ∃ rest, a.block = xs.map some ++ rest

variable {a : Arr α} {xs : List α} {x : α} {slots i : ℕ}

lemma holds_empty : (empty slots : Arr α).Holds [] := ⟨rfl, _, rfl⟩

lemma Holds.count_le (h : a.Holds xs) : a.count ≤ a.block.length := by
  obtain ⟨hcount, rest, hrest⟩ := h
  rw [hcount, hrest, List.length_append, List.length_map]
  omega

lemma mapM_map_some (xs : List α) : (xs.map some).mapM id = some xs := by
  induction xs with
  | nil => rfl
  | cons x xs ih => simp [List.mapM_cons, ih]

lemma Holds.elems_eq (h : a.Holds xs) : a.elems = some xs := by
  have hle := h.count_le
  obtain ⟨hcount, rest, hrest⟩ := h
  have htake : a.block.take a.count = xs.map some := by
    rw [hrest, hcount]
    exact List.take_left' (List.length_map _)
  rw [elems, if_pos hle, htake, mapM_map_some]

/-- A new block that has room for the elements keeps them. -/
lemma Holds.regrow (h : a.Holds xs) (hle : a.count ≤ slots) : (a.regrow slots).Holds xs := by
  obtain ⟨hcount, rest, hrest⟩ := h
  refine ⟨hcount, rest.take (slots - xs.length) ++ List.replicate (slots - a.block.length) none, ?_⟩
  rw [Arr.regrow, hrest, List.take_append, List.take_of_length_le (by simp; omega),
    List.length_map, List.append_assoc]

@[simp] lemma length_regrow (a : Arr α) (slots : ℕ) : (a.regrow slots).block.length = slots := by
  simp [Arr.regrow]
  omega

/-- A slot written behind the elements. -/
lemma Holds.write_count (h : a.Holds xs) (hlt : a.count < a.block.length) (x : Option α) :
    a.write a.count x = some { a with block := a.block.set a.count x } ∧
      ({ a with block := a.block.set a.count x } : Arr α).Holds xs := by
  refine ⟨if_pos hlt, ?_⟩
  obtain ⟨hcount, rest, hrest⟩ := h
  refine ⟨hcount, rest.set 0 x, ?_⟩
  rw [hrest, hcount, List.set_append_right _ _ (by simp), List.length_map, Nat.sub_self]

/-- An element behind the others, counted. -/
lemma Holds.push (h : a.Holds xs) (hlt : a.count < a.block.length) (x : α) :
    (⟨a.block.set a.count (some x), a.count + 1⟩ : Arr α).Holds (xs ++ [x]) := by
  obtain ⟨hcount, rest, hrest⟩ := h
  cases rest with
  | nil =>
    rw [hrest, List.append_nil, List.length_map] at hlt
    omega
  | cons y rest =>
    refine ⟨by simp [hcount], rest, ?_⟩
    rw [hrest, hcount, List.set_append_right _ _ (by simp), List.length_map, Nat.sub_self]
    simp

lemma split_at {xs : List α} (hi : i < xs.length) :
    ∃ l x r, xs = l ++ x :: r ∧ l.length = i := by
  refine ⟨xs.take i, xs[i], xs.drop (i + 1), ?_, by simp; omega⟩
  rw [List.getElem_cons_drop, List.take_append_drop]

/-- An element in another one's place. -/
lemma Holds.set (h : a.Holds xs) (hi : i < xs.length) (x : α) :
    a.write i (some x) = some { a with block := a.block.set i (some x) } ∧
      ({ a with block := a.block.set i (some x) } : Arr α).Holds (xs.set i x) := by
  have hle := h.count_le
  obtain ⟨hcount, rest, hrest⟩ := h
  refine ⟨if_pos (by omega), ?_⟩
  refine ⟨by simpa using hcount, rest, ?_⟩
  rw [hrest, List.set_append_left _ _ (by simpa using hi), List.map_set]

/-- The gap of a removed element closed. -/
lemma Holds.closeGap (h : a.Holds xs) (hi : i < xs.length) :
    ∃ a', ({ a with count := a.count - 1 } : Arr α).closeGap i = some a' ∧
      a'.Holds (xs.eraseIdx i) ∧ a'.block.length = a.block.length := by
  have hle := h.count_le
  obtain ⟨hcount, rest, hrest⟩ := h
  obtain ⟨l, x, r, rfl, rfl⟩ := split_at hi
  rw [List.length_append, List.length_cons] at hcount
  refine ⟨_, if_pos (by dsimp only; omega), ⟨?_, a.block.drop (a.count - 1), ?_⟩, ?_⟩
  · rw [List.length_eraseIdx_of_lt hi, List.length_append, List.length_cons]
    dsimp only
    omega
  · have hr : a.count - 1 - l.length = r.length := by omega
    have hblock : a.block = l.map some ++ some x :: (r.map some ++ rest) := by
      rw [hrest, List.map_append, List.map_cons, List.append_assoc, List.cons_append]
    dsimp only
    rw [hr, hblock, List.take_left' (List.length_map _)]
    have hdrop : (l.map some ++ some x :: (r.map some ++ rest)).drop (l.length + 1) =
        r.map some ++ rest := by
      rw [← List.drop_drop, List.drop_left' (List.length_map _), List.drop_succ_cons, List.drop_zero]
    rw [hdrop, List.take_left' (List.length_map _), List.eraseIdx_append_of_length_le (le_refl _)]
    simp
  · dsimp only
    simp only [List.length_append, List.length_take, List.length_drop]
    omega

end Arr

end SteepSystem.Lib.Growable
