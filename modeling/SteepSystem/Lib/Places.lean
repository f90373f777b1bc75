import Mathlib.Tactic
import Mathlib.Data.List.Nodup

/-!
Things that lie in boxes, each in one of them and once, and are moved from box to box.
-/

namespace SteepSystem.Lib.Places

variable {β κ : Type*} {box : β → List κ} {place : κ → β}

/-- Each thing lies where its place says, once. -/
structure Placed (box : β → List κ) (place : κ → β) : Prop where
  nodup : ∀ b, (box b).Nodup
  mem : ∀ b c, c ∈ box b ↔ place c = b

namespace Placed

lemma existsUnique (h : Placed box place) (c : κ) : ∃! b, c ∈ box b :=
  ⟨place c, (h.mem _ c).mpr rfl, fun b hb => ((h.mem b c).mp hb).symm⟩

lemma unique (h : Placed box place) {b b' : β} {c : κ} (hb : c ∈ box b) (hb' : c ∈ box b') :
    b = b' :=
  ((h.mem b c).mp hb).symm.trans ((h.mem b' c).mp hb')

variable [DecidableEq β]

/-- Some of the things of a box are moved behind those of another one. -/
lemma moveAll (h : Placed box place) {b b' : β} (hne : b ≠ b') {kept moved : List κ}
    (hkept : kept.Nodup) (hmoved : moved.Nodup)
    (hmem : ∀ c, c ∈ box b ↔ c ∈ kept ∨ c ∈ moved) (hdisjoint : ∀ c ∈ kept, c ∉ moved)
    [DecidableEq κ] :
    Placed (Function.update (Function.update box b kept) b' (box b' ++ moved))
      fun c => if c ∈ moved then b' else place c := by
  have hout : ∀ c ∈ moved, c ∉ box b' := fun c hc hc' =>
    hne (h.unique ((hmem c).mpr (.inr hc)) hc')
  refine ⟨fun d => ?_, fun d c => ?_⟩
  · by_cases hd' : d = b'
    · subst hd'
      rw [Function.update_self]
      refine List.nodup_append'.mpr ⟨h.nodup d, hmoved, fun c hc hc' => hout c hc' hc⟩
    · rw [Function.update_of_ne hd']
      by_cases hd : d = b
      · subst hd
        rw [Function.update_self]
        exact hkept
      · rw [Function.update_of_ne hd]
        exact h.nodup d
  · by_cases hd' : d = b'
    · subst hd'
      rw [Function.update_self, List.mem_append, h.mem]
      by_cases hc : c ∈ moved
      · simp [hc]
      · simp [hc]
    · rw [Function.update_of_ne hd']
      by_cases hd : d = b
      · subst hd
        rw [Function.update_self]
        by_cases hc : c ∈ moved
        · have hnot : c ∉ kept := fun hk => hdisjoint c hk hc
          simp [hc, hnot, Ne.symm hne]
        · rw [if_neg hc, ← h.mem, hmem]
          simp [hc]
      · rw [Function.update_of_ne hd, h.mem]
        by_cases hc : c ∈ moved
        · have hplace := (h.mem b c).mp ((hmem c).mpr (.inr hc))
          rw [if_pos hc, hplace]
          exact iff_of_false (Ne.symm hd) (Ne.symm hd')
        · rw [if_neg hc]

variable [DecidableEq κ]

/-- One thing is moved to the end of another box. -/
lemma move (h : Placed box place) {b b' : β} (hne : b ≠ b') {c : κ} (hc : c ∈ box b) :
    Placed (Function.update (Function.update box b ((box b).erase c)) b' (box b' ++ [c]))
      (Function.update place c b') := by
  have hmove := h.moveAll hne ((h.nodup b).erase c) (List.nodup_singleton c)
    (fun d => by
      by_cases hd : d = c
      · simp [hd, hc]
      · simp [hd, List.mem_erase_of_ne hd])
    (fun d hd => by
      rintro hd'
      obtain rfl := List.mem_singleton.mp hd'
      exact (h.nodup b).not_mem_erase hd)
  have hplace : (fun d => if d ∈ [c] then b' else place d) = Function.update place c b' := by
    funext d
    by_cases hd : d = c
    · simp [hd]
    · simp [hd]
  rwa [hplace] at hmove

end Placed

end SteepSystem.Lib.Places
