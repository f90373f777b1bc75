import Mathlib.Tactic
import Mathlib.Logic.Relation

/-!
A walk down a forest: all children of a key, then the walk from each of them in turn. A node
stands for its key, and `children` lists the nodes under a key.
-/

namespace SteepSystem.Lib.Walk

open Relation

variable {κ α : Type*} (key : α → κ) (children : κ → List α)

/-- The walk to the given depth. -/
def walk : ℕ → κ → List α
  | 0, _ => []
  | n + 1, k => children k ++ (children k).flatMap fun a => walk n (key a)

def Edge (p c : κ) : Prop := ∃ a ∈ children p, key a = c

/-- The nodes under a key, at any depth. -/
def Under (k : κ) (a : α) : Prop := ∃ p, ReflTransGen (Edge key children) k p ∧ a ∈ children p

/-- No node has two places, and the keys rise in rank from a place to the nodes there. -/
structure IsForest (rank : κ → ℕ) : Prop where
  place : ∀ p q, ∀ a ∈ children p, ∀ b ∈ children q, key a = key b → p = q ∧ a = b
  nodup : ∀ p, (children p).Nodup
  rank_lt : ∀ p, ∀ a ∈ children p, rank p < rank (key a)

variable {key children} {rank : κ → ℕ} {k : κ} {n : ℕ} {a b : α}

lemma under_of_mem (h : a ∈ children k) : Under key children k a := ⟨k, .refl, h⟩

lemma Under.of_child (ha : a ∈ children k) (h : Under key children (key a) b) :
    Under key children k b := by
  obtain ⟨p, hp, hb⟩ := h
  exact ⟨p, .head ⟨a, ha, rfl⟩ hp, hb⟩

/-- A node under a key is one of its children, or under one of them. -/
lemma under_iff : Under key children k b ↔
    b ∈ children k ∨ ∃ a ∈ children k, Under key children (key a) b := by
  constructor
  · rintro ⟨p, hp, hb⟩
    rcases hp.cases_head with rfl | ⟨c, ⟨a, ha, rfl⟩, hc⟩
    · exact .inl hb
    · exact .inr ⟨a, ha, p, hc, hb⟩
  · rintro (h | ⟨a, ha, h⟩)
    · exact under_of_mem h
    · exact h.of_child ha

lemma under_of_mem_walk (h : b ∈ walk key children n k) : Under key children k b := by
  induction n generalizing k with
  | zero => simp [walk] at h
  | succ n ih =>
    rw [walk, List.mem_append, List.mem_flatMap] at h
    rcases h with h | ⟨a, ha, h⟩
    · exact under_of_mem h
    · exact (ih h).of_child ha

namespace IsForest

variable (hf : IsForest key children rank)

include hf

lemma rank_le {p c : κ} (h : ReflTransGen (Edge key children) p c) : rank p ≤ rank c := by
  induction h with
  | refl => exact le_rfl
  | tail _ hstep ih =>
    obtain ⟨a, ha, rfl⟩ := hstep
    exact ih.trans (hf.rank_lt _ a ha).le

lemma rank_lt_of_under (h : Under key children k a) : rank k < rank (key a) := by
  obtain ⟨p, hp, ha⟩ := h
  exact (hf.rank_le hp).trans_lt (hf.rank_lt _ a ha)

/-- Fewer nodes rank above a child than above its parent: the child is one of them. -/
lemma countP_lt {nodes : List α} (ha : a ∈ children k) (hmem : a ∈ nodes) :
    nodes.countP (fun b => rank (key a) < rank (key b)) <
      nodes.countP (fun b => rank k < rank (key b)) := by
  have hlt := hf.rank_lt k a ha
  obtain ⟨l, r, rfl⟩ := List.append_of_mem hmem
  simp only [List.countP_append, List.countP_cons]
  have hmono : ∀ m : List α, m.countP (fun b => rank (key a) < rank (key b)) ≤
      m.countP (fun b => rank k < rank (key b)) := fun m =>
    List.countP_mono_left fun b _ hb => by
      simp only [decide_eq_true_eq] at hb ⊢
      omega
  have hl := hmono l
  have hr := hmono r
  simp only [lt_irrefl, decide_false, Bool.false_eq_true, if_false, hlt, decide_true, if_true]
  omega

lemma children_eq_nil {nodes : List α} (hnodes : ∀ a ∈ children k, a ∈ nodes)
    (hn : nodes.countP (fun b => rank k < rank (key b)) = 0) : children k = [] := by
  rw [List.eq_nil_iff_forall_not_mem]
  intro a ha
  have := List.countP_eq_zero.1 hn a (hnodes a ha)
  simp [hf.rank_lt k a ha] at this

/-- The walk is complete at a depth of the number of nodes that rank above the key. -/
lemma mem_walk_of_under {nodes : List α} (hnodes : ∀ p, ∀ a ∈ children p, a ∈ nodes)
    (hn : nodes.countP (fun a => rank k < rank (key a)) ≤ n) (h : Under key children k b) :
    b ∈ walk key children n k := by
  induction n generalizing k with
  | zero =>
    have hnil := hf.children_eq_nil (hnodes k) (Nat.le_zero.1 hn)
    rcases under_iff.1 h with h | ⟨a, ha, -⟩
    · simp [hnil] at h
    · simp [hnil] at ha
  | succ n ih =>
    rw [walk, List.mem_append, List.mem_flatMap]
    rcases under_iff.1 h with h | ⟨a, ha, h⟩
    · exact .inl h
    · have := hf.countP_lt ha (hnodes k a ha)
      exact .inr ⟨a, ha, ih (by omega) h⟩

/-- A key that two siblings both lead to would put one of them under the other. -/
lemma eq_of_common {c : κ} (ha : a ∈ children k) (hb : b ∈ children k)
    (hac : ReflTransGen (Edge key children) (key a) c)
    (hbc : ReflTransGen (Edge key children) (key b) c) : a = b := by
  have hunique : Relator.RightUnique (Function.swap (Edge key children)) := by
    rintro c p q ⟨a, ha, rfl⟩ ⟨b, hb, hkey⟩
    exact (hf.place _ _ a ha b hb hkey.symm).1
  have aux : ∀ {a b : α}, a ∈ children k → b ∈ children k →
      ReflTransGen (Edge key children) (key a) (key b) → a = b := by
    intro a b ha hb h
    rcases h.cases_tail with h | ⟨p, hp, d, hd, hkey⟩
    · exact ((hf.place _ _ b hb a ha h).2).symm
    · -- the parent of the second is the common parent, which ranks below the first
      obtain ⟨rfl, -⟩ := hf.place _ _ d hd b hb hkey
      exact absurd (hf.rank_le hp) (hf.rank_lt _ a ha).not_ge
  rcases ReflTransGen.total_of_right_unique hunique (reflTransGen_swap.2 hac)
    (reflTransGen_swap.2 hbc) with h | h
  · exact (aux hb ha (reflTransGen_swap.1 h)).symm
  · exact aux ha hb (reflTransGen_swap.1 h)

/-- The walk meets no key twice and no node before the one it is under. -/
lemma walk_pairwise : (walk key children n k).Pairwise fun a b =>
    key a ≠ key b ∧ a ∉ children (key b) := by
  induction n generalizing k with
  | zero => exact .nil
  | succ n ih =>
    rw [walk, List.pairwise_append, List.pairwise_flatMap]
    refine ⟨?_, ⟨fun a _ => ih, ?_⟩, ?_⟩
    · refine (hf.nodup k).imp_of_mem fun {a b} ha hb hne => ⟨fun hkey => ?_, fun hm => ?_⟩
      · exact hne (hf.place _ _ a ha b hb hkey).2
      · obtain ⟨heq, -⟩ := hf.place _ _ a ha a hm rfl
        exact absurd (hf.rank_lt _ b hb) (heq ▸ lt_irrefl _)
    · refine (hf.nodup k).imp_of_mem fun {a b} ha hb hne c hc d hd => ⟨fun hkey => ?_, fun hm => ?_⟩
      · obtain ⟨p, hp, hcp⟩ := under_of_mem_walk hc
        obtain ⟨q, hq, hdq⟩ := under_of_mem_walk hd
        exact hne (hf.eq_of_common ha hb (hp.tail ⟨c, hcp, rfl⟩) (hkey ▸ hq.tail ⟨d, hdq, rfl⟩))
      · obtain ⟨p, hp, hcp⟩ := under_of_mem_walk hc
        obtain ⟨q, hq, hdq⟩ := under_of_mem_walk hd
        obtain ⟨rfl, -⟩ := hf.place _ _ c hcp c hm rfl
        exact hne (hf.eq_of_common ha hb hp (hq.tail ⟨d, hdq, rfl⟩))
    · intro a ha c hc
      obtain ⟨b, hb, hc⟩ := List.mem_flatMap.1 hc
      have hrank := (hf.rank_lt k b hb).trans (hf.rank_lt_of_under (under_of_mem_walk hc))
      refine ⟨fun hkey => ?_, fun hm => ?_⟩
      · obtain ⟨p, hp, hcp⟩ := under_of_mem_walk hc
        obtain ⟨rfl, -⟩ := hf.place _ _ a ha c hcp hkey
        exact absurd (hf.rank_le hp) (hf.rank_lt _ b hb).not_ge
      · obtain ⟨heq, -⟩ := hf.place _ _ a ha a hm rfl
        exact absurd hrank (heq ▸ lt_irrefl _)

end IsForest

end SteepSystem.Lib.Walk
