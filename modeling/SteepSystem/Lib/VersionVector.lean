import Mathlib.Tactic
import Mathlib.Order.WithBot

/-!
Version vectors as association lists in strictly ascending key order: the map from a key to the
latest version stored for it, insertion that keeps the later version, and comparison.
-/

namespace SteepSystem.Lib.VersionVector

variable {κ ν : Type*} [LinearOrder κ] [LinearOrder ν]

/-- The latest version of a key in any list of entries. -/
def latest : List (κ × ν) → κ → WithBot ν
  | [], _ => ⊥
  | e :: l, k => if e.1 = k then (e.2 : WithBot ν) ⊔ latest l k else latest l k

def Sorted (l : List (κ × ν)) : Prop := l.Pairwise fun a b => a.1 < b.1

/-- Insertion in key order; an entry for the key keeps the later version. -/
def insertMax (k : κ) (v : ν) : List (κ × ν) → List (κ × ν)
  | [] => [(k, v)]
  | e :: l =>
    if e.1 < k then e :: insertMax k v l
    else if e.1 = k then (e.1, max e.2 v) :: l
    else (k, v) :: e :: l

def insertAll (l : List (κ × ν)) (entries : List (κ × ν)) : List (κ × ν) :=
  entries.foldl (fun l e => insertMax e.1 e.2 l) l

@[simp] lemma latest_nil (k : κ) : latest ([] : List (κ × ν)) k = ⊥ := rfl

lemma latest_cons (e : κ × ν) (l : List (κ × ν)) (k : κ) :
    latest (e :: l) k = if e.1 = k then (e.2 : WithBot ν) ⊔ latest l k else latest l k := rfl

@[simp] lemma latest_append (l m : List (κ × ν)) : latest (l ++ m) = latest l ⊔ latest m := by
  funext k
  induction l with
  | nil => simp
  | cons e l ih =>
    simp only [List.cons_append, latest_cons, ih, Pi.sup_apply]
    split_ifs
    · rw [sup_assoc]
    · rfl

lemma latest_insertMax (k : κ) (v : ν) (l : List (κ × ν)) :
    latest (insertMax k v l) = latest l ⊔ latest [(k, v)] := by
  funext j
  simp only [Pi.sup_apply]
  induction l with
  | nil => simp [insertMax]
  | cons e l ih =>
    rw [insertMax]
    split_ifs with h1 h2
    · rw [latest_cons, latest_cons, ih]
      split_ifs
      · rw [sup_assoc]
      · rfl
    · simp only [latest_cons, latest_nil, ← h2]
      split_ifs
      · rw [WithBot.coe_max, sup_bot_eq, sup_assoc, sup_assoc, sup_comm (a := (v : WithBot ν))]
      · rw [sup_bot_eq]
    · rw [latest_cons (k, v), latest_cons (k, v)]
      split_ifs
      · rw [latest_nil, sup_bot_eq, sup_comm]
      · rw [latest_nil, sup_bot_eq]

lemma latest_insertAll (l entries : List (κ × ν)) :
    latest (insertAll l entries) = latest l ⊔ latest entries := by
  induction entries generalizing l with
  | nil => funext k; simp [insertAll]
  | cons e es ih =>
    have h : insertAll l (e :: es) = insertAll (insertMax e.1 e.2 l) es := rfl
    rw [h, ih, latest_insertMax, sup_assoc, ← latest_append, List.singleton_append]

lemma mem_insertMax {k : κ} {v : ν} {l : List (κ × ν)} {e : κ × ν} (h : e ∈ insertMax k v l) :
    e.1 = k ∨ ∃ d ∈ l, e.1 = d.1 := by
  induction l with
  | nil => simp_all [insertMax]
  | cons d l ih => grind [insertMax]

lemma Sorted.insertMax {l : List (κ × ν)} (h : Sorted l) (k : κ) (v : ν) :
    Sorted (insertMax k v l) := by
  induction l with
  | nil => simp [VersionVector.insertMax, Sorted]
  | cons d l ih =>
    obtain ⟨hd, hl⟩ := List.pairwise_cons.1 h
    rw [VersionVector.insertMax]
    split_ifs with h1 h2
    · refine List.pairwise_cons.2 ⟨fun e he => ?_, ih hl⟩
      rcases mem_insertMax he with rfl | ⟨c, hc, hec⟩
      · exact h1
      · rw [hec]
        exact hd c hc
    · exact List.pairwise_cons.2 ⟨hd, hl⟩
    · have hk : k < d.1 := lt_of_le_of_ne (not_lt.1 h1) (Ne.symm h2)
      refine List.pairwise_cons.2 ⟨fun e he => ?_, h⟩
      rcases List.mem_cons.1 he with rfl | he
      · exact hk
      · exact hk.trans (hd e he)

lemma latest_eq_bot {l : List (κ × ν)} {k : κ} (h : ∀ e ∈ l, e.1 ≠ k) : latest l k = ⊥ := by
  induction l with
  | nil => rfl
  | cons e l ih =>
    rw [latest_cons, if_neg (h e (by simp)), ih fun d hd => h d (by simp [hd])]

/-- In a sorted list a key has the version of its one entry. -/
lemma Sorted.mem_iff {l : List (κ × ν)} (h : Sorted l) (k : κ) (v : ν) :
    (k, v) ∈ l ↔ latest l k = v := by
  induction l with
  | nil => simp
  | cons e l ih =>
    obtain ⟨he, hl⟩ := List.pairwise_cons.1 h
    rw [latest_cons, List.mem_cons]
    split_ifs with hk
    · have hbot : latest l k = ⊥ := latest_eq_bot fun d hd => (hk ▸ he d hd).ne'
      have hnot : (k, v) ∉ l := fun hm => (hk ▸ he _ hm).ne rfl
      rw [hbot, sup_bot_eq, WithBot.coe_inj]
      constructor
      · rintro (rfl | hm)
        · rfl
        · exact absurd hm hnot
      · rintro rfl
        exact .inl (Prod.ext hk.symm rfl)
    · rw [← ih hl]
      exact or_iff_right fun h => hk (by rw [← h])

omit [LinearOrder ν] in
lemma Sorted.nodup {l : List (κ × ν)} (h : Sorted l) : l.Nodup :=
  h.imp fun hlt heq => hlt.ne (by rw [heq])

/-- Sorted lists that stand for the same map are the same list. -/
lemma Sorted.ext {l m : List (κ × ν)} (hl : Sorted l) (hm : Sorted m)
    (h : latest l = latest m) : l = m := by
  have hperm : l.Perm m := by
    refine (List.perm_ext_iff_of_nodup hl.nodup hm.nodup).2 fun ⟨k, v⟩ => ?_
    rw [hl.mem_iff, hm.mem_iff, h]
  exact hperm.eq_of_pairwise (fun a b _ _ hab hba => absurd (hab.trans hba) (lt_irrefl _)) hl hm

/-- The pointwise order, entry by entry. -/
lemma latest_le_iff {l m : List (κ × ν)} :
    latest l ≤ latest m ↔ ∀ e ∈ l, (e.2 : WithBot ν) ≤ latest m e.1 := by
  induction l with
  | nil => simp [Pi.le_def]
  | cons e l ih =>
    have hcons : latest (e :: l) = latest [e] ⊔ latest l := by
      rw [← latest_append, List.singleton_append]
    have hone : latest [e] ≤ latest m ↔ (e.2 : WithBot ν) ≤ latest m e.1 := by
      constructor
      · intro h
        simpa [latest_cons] using h e.1
      · intro h k
        rw [latest_cons]
        split_ifs with hk
        · subst hk
          simpa using h
        · simp
    rw [hcons, sup_le_iff, hone, ih, List.forall_mem_cons]

end SteepSystem.Lib.VersionVector
