import Mathlib.Data.List.Basic
import Mathlib.Data.List.Nodup
import Mathlib.Logic.Function.Basic
import Mathlib.Tactic

/-!
Circular doubly linked lists: nodes with a link to the next and to the previous one. A ring is cut
open at some node; what is changed in it is the end of a path.
-/

namespace SteepSystem.Lib.Rings

variable {ν : Type*}

structure Links (ν : Type*) where
  next : ν → Option ν
  prev : ν → Option ν

/-- Two nodes, one after the other. -/
def Joined (m : Links ν) (a b : ν) : Prop := m.next a = some b ∧ m.prev b = some a

/-- From a node through some others to a last one. -/
def Path (m : Links ν) : ν → List ν → ν → Prop
  | a, [], b => Joined m a b
  | a, x :: l, b => Joined m a x ∧ Path m x l b

/-- A path through all nodes and back to the first. -/
def Ring (m : Links ν) : List ν → Prop
  | [] => True
  | x :: l => Path m x l x

/-- The nodes that a link leads to, so many at most. -/
def follow (link : ν → Option ν) : ℕ → Option ν → List ν
  | 0, _ => []
  | _, none => []
  | n + 1, some a => a :: follow link n (link a)

variable {m m' : Links ν} {a b c x : ν} {l l' xs : List ν}

@[simp] lemma path_nil : Path m a [] b ↔ Joined m a b := Iff.rfl

@[simp] lemma path_cons : Path m a (x :: l) b ↔ Joined m a x ∧ Path m x l b := Iff.rfl

/-- A path is cut at one of its nodes. -/
lemma path_append : Path m a (l ++ x :: l') b ↔ Path m a l x ∧ Path m x l' b := by
  induction l generalizing a with
  | nil => rfl
  | cons y l ih => rw [List.cons_append, path_cons, path_cons, ih, and_assoc]

lemma path_concat : Path m a (l ++ [x]) b ↔ Path m a l x ∧ Joined m x b := path_append

/-- A ring may be cut open anywhere. -/
lemma ring_rotate (l l' : List ν) : Ring m (l ++ l') ↔ Ring m (l' ++ l) := by
  cases l with
  | nil => rw [List.append_nil, List.nil_append]
  | cons x l =>
    cases l' with
    | nil => rw [List.append_nil, List.nil_append]
    | cons y l' =>
      change Path m x (l ++ y :: l') x ↔ Path m y (l' ++ x :: l) y
      rw [path_append, path_append]
      exact and_comm

lemma Path.next_start (h : Path m a l b) : m.next a = some (l.headD b) := by
  cases l with
  | nil => exact h.1
  | cons x l => exact h.1.1

lemma Path.prev_end (h : Path m a l b) : m.prev b = some (l.getLastD a) := by
  induction l generalizing a with
  | nil => exact h.2
  | cons x l ih =>
    rw [List.getLastD_cons]
    exact ih h.2

/-- Links of other nodes do not matter. -/
lemma Path.congr (h : Path m a l b) (hnext : ∀ d ∈ a :: l, m'.next d = m.next d)
    (hprev : ∀ d ∈ l, m'.prev d = m.prev d) (hend : m'.prev b = m.prev b) : Path m' a l b := by
  induction l generalizing a with
  | nil => exact ⟨(hnext a List.mem_cons_self).trans h.1, hend.trans h.2⟩
  | cons x l ih =>
    refine ⟨⟨(hnext a List.mem_cons_self).trans h.1.1,
      (hprev x List.mem_cons_self).trans h.1.2⟩, ?_⟩
    exact ih h.2 (fun d hd => hnext d (List.mem_cons_of_mem a hd))
      fun d hd => hprev d (List.mem_cons_of_mem x hd)

/-- The last node of a path gets another one behind it. -/
lemma Path.redirect (h : Path m a l b) (hnodup : (a :: l).Nodup)
    (hnext : ∀ d ∈ a :: l, d ≠ l.getLastD a → m'.next d = m.next d)
    (hprev : ∀ d ∈ l, m'.prev d = m.prev d) (hjoin : Joined m' (l.getLastD a) c) :
    Path m' a l c := by
  rcases l.eq_nil_or_concat' with rfl | ⟨l, x, rfl⟩
  · exact hjoin
  · rw [List.getLastD_concat] at hnext hjoin
    rw [path_concat] at h ⊢
    have hne : ∀ d ∈ a :: l, d ≠ x := by
      intro d hd heq
      rw [← List.cons_append, List.nodup_append] at hnodup
      exact hnodup.2.2 d hd x (List.mem_singleton.mpr rfl) heq
    refine ⟨h.1.congr (fun d hd => hnext d ?_ (hne d hd)) (fun d hd => hprev d ?_) ?_, hjoin⟩
    · rw [← List.cons_append]
      exact List.mem_append_left _ hd
    · exact List.mem_append_left _ hd
    · exact hprev x (List.mem_append_right _ List.mem_cons_self)

/-- Links of nodes outside a ring do not matter. -/
lemma Ring.congr (h : Ring m xs) (hnext : ∀ d ∈ xs, m'.next d = m.next d)
    (hprev : ∀ d ∈ xs, m'.prev d = m.prev d) : Ring m' xs := by
  cases xs with
  | nil => trivial
  | cons x l =>
    exact Path.congr h hnext (fun d hd => hprev d (List.mem_cons_of_mem x hd))
      (hprev x List.mem_cons_self)

/-- A node before the one that a ring is cut open at. -/
lemma Ring.insert (h : Ring m (b :: l)) (hnodup : (b :: l).Nodup) (hx : x ∉ b :: l)
    (hnext : ∀ d, d ≠ x → d ≠ l.getLastD b → m'.next d = m.next d)
    (hprev : ∀ d, d ≠ x → d ≠ b → m'.prev d = m.prev d) (hlast : Joined m' (l.getLastD b) x)
    (hfirst : Joined m' x b) : Ring m' (b :: l ++ [x]) := by
  have hne : ∀ d ∈ b :: l, d ≠ x := fun d hd heq => hx (heq ▸ hd)
  have hb : ∀ d ∈ l, d ≠ b := fun d hd heq => (List.nodup_cons.mp hnodup).1 (heq ▸ hd)
  refine path_concat.mpr ⟨Path.redirect h hnodup (fun d hd => hnext d (hne d hd)) ?_ hlast, hfirst⟩
  exact fun d hd => hprev d (hne d (List.mem_cons_of_mem b hd)) (hb d hd)

/-- The node that a ring is cut open at taken out. -/
lemma Ring.erase (h : Ring m (a :: b :: l)) (hnodup : (a :: b :: l).Nodup)
    (hnext : ∀ d, d ≠ a → d ≠ l.getLastD b → m'.next d = m.next d)
    (hprev : ∀ d, d ≠ a → d ≠ b → m'.prev d = m.prev d) (hjoin : Joined m' (l.getLastD b) b) :
    Ring m' (b :: l) := by
  obtain ⟨ha, hrest⟩ := List.nodup_cons.mp hnodup
  have hne : ∀ d ∈ b :: l, d ≠ a := fun d hd heq => ha (heq ▸ hd)
  have hb : ∀ d ∈ l, d ≠ b := fun d hd heq => (List.nodup_cons.mp hrest).1 (heq ▸ hd)
  refine Path.redirect h.2 hrest (fun d hd => hnext d (hne d hd)) (fun d hd => ?_) hjoin
  exact hprev d (hne d (List.mem_cons_of_mem b hd)) (hb d hd)

/-- Two rings cut open and joined to one. -/
lemma Ring.append (h : Ring m (a :: l)) (h' : Ring m (b :: l'))
    (hnodup : (a :: l ++ b :: l').Nodup)
    (hnext : ∀ d, d ≠ l.getLastD a → d ≠ l'.getLastD b → m'.next d = m.next d)
    (hprev : ∀ d, d ≠ a → d ≠ b → m'.prev d = m.prev d) (hlast : Joined m' (l.getLastD a) b)
    (hlast' : Joined m' (l'.getLastD b) a) : Ring m' (a :: l ++ b :: l') := by
  obtain ⟨hl, hl', hdisj⟩ := List.nodup_append.mp hnodup
  have hmem : l.getLastD a ∈ a :: l := List.getLastD_mem_cons
  have hmem' : l'.getLastD b ∈ b :: l' := List.getLastD_mem_cons
  have ha : ∀ d ∈ l, d ≠ a := fun d hd heq => (List.nodup_cons.mp hl).1 (heq ▸ hd)
  have hb : ∀ d ∈ l', d ≠ b := fun d hd heq => (List.nodup_cons.mp hl').1 (heq ▸ hd)
  refine path_append.mpr ⟨?_, ?_⟩
  · refine Path.redirect h hl (fun d hd hne => hnext d hne (hdisj d hd _ hmem')) ?_ hlast
    exact fun d hd =>
      hprev d (ha d hd) (hdisj d (List.mem_cons_of_mem a hd) b List.mem_cons_self)
  · refine Path.redirect h' hl' (fun d hd => hnext d (hdisj _ hmem d hd).symm) ?_ hlast'
    exact fun d hd =>
      hprev d (hdisj a List.mem_cons_self d (List.mem_cons_of_mem b hd)).symm (hb d hd)

/-- Along a path from its first node. -/
lemma Path.follow_next (h : Path m a l b) :
    follow m.next (l.length + 1) (some a) = a :: l := by
  induction l generalizing a with
  | nil => rfl
  | cons x l ih =>
    rw [List.length_cons, follow, h.1.1]
    exact congrArg _ (ih h.2)

/-- Back along a path from its last node. -/
lemma Path.follow_prev (h : Path m a l b) :
    follow m.prev (l.length + 1) (m.prev b) = (a :: l).reverse := by
  induction l using List.reverseRecOn generalizing b with
  | nil =>
    rw [h.2]
    rfl
  | append_singleton l x ih =>
    rw [path_concat] at h
    rw [List.length_append, List.length_singleton, h.2.2, follow, ih h.1, ← List.cons_append,
      List.reverse_append]
    rfl

end SteepSystem.Lib.Rings
