import Mathlib.Tactic
import Mathlib.Data.List.Perm.Basic

/-!
Trees kept as first child and next sibling. A place in the tree is picked by a test on the
values there; under a test met once, adding a last child and cutting a node out have the effect
on the preorder list of values that their names say.
-/

namespace SteepSystem.Lib

open scoped List

/-- A node with the group of its children and the group of the siblings after it. -/
inductive Forest (α : Type*)
  | nil
  | node (value : α) (children sibling : Forest α)
  deriving DecidableEq

namespace Forest

variable {α : Type*}

/-- The values, each before those of its children. -/
def nodes : Forest α → List α
  | nil => []
  | node v c s => v :: (c.nodes ++ s.nodes)

/-- The value of the first tree. -/
def rootValue : Forest α → Option α
  | nil => none
  | node v _ _ => some v

/-- The group with one more tree, a single node, after the last. -/
def snoc (x : α) : Forest α → Forest α
  | nil => node x nil nil
  | node v c s => node v c (s.snoc x)

/-- `x` becomes the last child of the node that `p` picks. -/
def addLast (p : α → Bool) (x : α) : Forest α → Forest α
  | nil => nil
  | node v c s => if p v then node v (c.snoc x) s else node v (c.addLast p x) (s.addLast p x)

/-- The values at the node that `p` picks and below it. -/
def subtreeAt (p : α → Bool) : Forest α → List α
  | nil => []
  | node v c s => if p v then v :: c.nodes else c.subtreeAt p ++ s.subtreeAt p

/-- The values below the node that `p` picks. -/
def descendants (p : α → Bool) (t : Forest α) : List α := (t.subtreeAt p).tail

/-- The node that `p` picks goes, with everything below it. -/
def remove (p : α → Bool) : Forest α → Forest α
  | nil => nil
  | node v c s => if p v then s else node v (c.remove p) (s.remove p)

@[simp] lemma nodes_nil : (nil : Forest α).nodes = [] := rfl

@[simp] lemma nodes_node (v : α) (c s : Forest α) :
    (node v c s).nodes = v :: (c.nodes ++ s.nodes) := rfl

variable {p : α → Bool} {t : Forest α} {x : α}

lemma nodes_snoc (x : α) (t : Forest α) : (t.snoc x).nodes ~ x :: t.nodes := by
  induction t with
  | nil => exact .refl _
  | node v c s _ ih =>
    calc (node v c (s.snoc x)).nodes
        = v :: (c.nodes ++ (s.snoc x).nodes) := rfl
      _ ~ v :: (c.nodes ++ x :: s.nodes) := (ih.append_left _).cons _
      _ ~ v :: x :: (c.nodes ++ s.nodes) := List.perm_middle.cons _
      _ ~ x :: v :: (c.nodes ++ s.nodes) := .swap _ _ _

lemma addLast_of_countP_eq_zero (h : t.nodes.countP p = 0) : t.addLast p x = t := by
  induction t with
  | nil => rfl
  | node v c s ihc ihs =>
    simp only [nodes_node, List.countP_cons, List.countP_append] at h
    have hv : p v = false := by
      by_contra hv
      simp [hv] at h
    rw [addLast, hv, ihc (by omega), ihs (by omega)]
    rfl

/-- **A new last child.** Where one node passes the test, adding a child to it adds that one
value to the tree. -/
theorem nodes_addLast (h : t.nodes.countP p = 1) : (t.addLast p x).nodes ~ x :: t.nodes := by
  induction t with
  | nil => simp at h
  | node v c s ihc ihs =>
    simp only [nodes_node, List.countP_cons, List.countP_append] at h
    rw [addLast]
    by_cases hv : p v
    · simp only [hv, if_true, nodes_node]
      exact (((nodes_snoc x c).append_right _).cons v).trans (.swap _ _ _)
    simp only [hv, Bool.false_eq_true, if_false, nodes_node] at h ⊢
    -- The one match is among the children, or among the siblings.
    rcases Nat.eq_zero_or_pos (c.nodes.countP p) with hc | hc
    · rw [addLast_of_countP_eq_zero hc]
      refine (((ihs (by omega)).append_left c.nodes).cons v).trans ?_
      exact (List.perm_middle.cons v).trans (.swap _ _ _)
    · rw [@addLast_of_countP_eq_zero _ p s x (by omega)]
      exact (((ihc (by omega)).append_right s.nodes).cons v).trans (.swap _ _ _)

/-- **A node cut out.** The tree's values are those at and below the node, and those left. -/
theorem nodes_perm_remove (p : α → Bool) (t : Forest α) :
    t.nodes ~ t.subtreeAt p ++ (t.remove p).nodes := by
  induction t with
  | nil => exact .refl _
  | node v c s ihc ihs =>
    rw [subtreeAt, remove]
    by_cases hv : p v
    · simp only [hv, if_true, nodes_node, List.cons_append]
      exact .refl _
    simp only [hv, Bool.false_eq_true, if_false, nodes_node]
    calc v :: (c.nodes ++ s.nodes)
      _ ~ v :: ((c.subtreeAt p ++ (c.remove p).nodes) ++
            (s.subtreeAt p ++ (s.remove p).nodes)) := (ihc.append ihs).cons v
      _ ~ v :: (c.subtreeAt p ++ s.subtreeAt p ++
            ((c.remove p).nodes ++ (s.remove p).nodes)) := by
          refine List.Perm.cons v ?_
          simp only [List.append_assoc]
          refine List.Perm.append_left _ ?_
          simp only [← List.append_assoc]
          exact List.Perm.append_right _ List.perm_append_comm
      _ ~ c.subtreeAt p ++ s.subtreeAt p ++
            v :: ((c.remove p).nodes ++ (s.remove p).nodes) := List.perm_middle.symm

lemma subtreeAt_eq_nil (h : t.nodes.countP p = 0) : t.subtreeAt p = [] := by
  induction t with
  | nil => rfl
  | node v c s ihc ihs =>
    simp only [nodes_node, List.countP_cons, List.countP_append] at h
    have hv : p v = false := by
      by_contra hv
      simp [hv] at h
    rw [subtreeAt, hv, ihc (by omega), ihs (by omega)]
    rfl

/-- What goes with a node is the node itself and its descendants. -/
theorem subtreeAt_eq_cons (h : t.nodes.countP p = 1) :
    ∃ v ∈ t.nodes, p v ∧ t.subtreeAt p = v :: t.descendants p := by
  unfold descendants
  induction t with
  | nil => simp at h
  | node v c s ihc ihs =>
    simp only [nodes_node, List.countP_cons, List.countP_append] at h
    rw [subtreeAt]
    by_cases hv : p v
    · exact ⟨v, by simp, hv, by simp [hv]⟩
    simp only [hv, Bool.false_eq_true, if_false] at h ⊢
    rcases Nat.eq_zero_or_pos (c.nodes.countP p) with hc | hc
    · obtain ⟨w, hw, hpw, heq⟩ := ihs (by omega)
      rw [subtreeAt_eq_nil hc]
      exact ⟨w, by simp [hw], hpw, heq⟩
    · obtain ⟨w, hw, hpw, heq⟩ := ihc (by omega)
      rw [@subtreeAt_eq_nil _ p s (by omega), List.append_nil]
      exact ⟨w, by simp [hw], hpw, heq⟩

lemma rootValue_addLast (p : α → Bool) (x : α) (t : Forest α) :
    (t.addLast p x).rootValue = t.rootValue := by
  cases t with
  | nil => rfl
  | node v c s => rw [addLast]; split <;> rfl

lemma rootValue_remove (h : ∀ v, t.rootValue = some v → ¬ p v) :
    (t.remove p).rootValue = t.rootValue := by
  cases t with
  | nil => rfl
  | node v c s => rw [remove, if_neg (h v rfl)]; rfl

end Forest

end SteepSystem.Lib
