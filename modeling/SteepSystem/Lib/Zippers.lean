import SteepSystem.Lib.Forest

/-!
A place in a tree kept as first child and next sibling: what lies around a group that hangs
there. Changing the node at a place, cutting it out, or hanging a group in before, after or below
it are all a matter of what the place is filled with.
-/

namespace SteepSystem.Lib

open scoped List

namespace Forest

variable {α β : Type*}

/-- The trees of one group, then those of another. -/
def append : Forest α → Forest α → Forest α
  | nil, t => t
  | node v c s, t => node v c (s.append t)

/-- How many trees the group has. -/
def length : Forest α → ℕ
  | nil => 0
  | node _ _ s => s.length + 1

/-- The node that `p` picks, its children and what follows it become `f` of the three. -/
def modifyAt (p : α → Bool) (f : α → Forest α → Forest α → Forest α) : Forest α → Forest α
  | nil => nil
  | node v c s => if p v then f v c s else node v (c.modifyAt p f) (s.modifyAt p f)

/-- The children of the node that `p` picks. -/
def childrenAt (p : α → Bool) : Forest α → Forest α
  | nil => nil
  | node v c s => if p v then c else (c.childrenAt p).append (s.childrenAt p)

/-- The same trees with the given values, in preorder, and the values that are left. -/
def relabel : Forest α → List β → Forest β × List β
  | nil, l => (nil, l)
  | node _ _ _, [] => (nil, [])
  | node _ c s, x :: l =>
    (node x (c.relabel l).1 (s.relabel (c.relabel l).2).1, (s.relabel (c.relabel l).2).2)

@[simp] lemma nil_append (t : Forest α) : nil.append t = t := rfl

@[simp] lemma node_append (v : α) (c s t : Forest α) :
    (node v c s).append t = node v c (s.append t) := rfl

@[simp] lemma append_nil (t : Forest α) : t.append nil = t := by
  induction t with
  | nil => rfl
  | node v c s _ ih => rw [node_append, ih]

@[simp] lemma nodes_append (t u : Forest α) : (t.append u).nodes = t.nodes ++ u.nodes := by
  induction t with
  | nil => rfl
  | node v c s _ ih => simp [ih]

@[simp] lemma length_nil : (nil : Forest α).length = 0 := rfl

@[simp] lemma length_node (v : α) (c s : Forest α) : (node v c s).length = s.length + 1 := rfl

@[simp] lemma length_append (t u : Forest α) : (t.append u).length = t.length + u.length := by
  induction t with
  | nil => simp
  | node v c s _ ih =>
    rw [node_append, length_node, length_node, ih]
    omega

lemma length_le_nodes (t : Forest α) : t.length ≤ t.nodes.length := by
  induction t with
  | nil => simp
  | node v c s _ ih =>
    rw [length_node, nodes_node, List.length_cons, List.length_append]
    omega

@[simp] lemma rootValue_nil : (nil : Forest α).rootValue = none := rfl

@[simp] lemma rootValue_node (v : α) (c s : Forest α) : (node v c s).rootValue = some v := rfl

/-- A tree takes as many values as it has, and leaves the others. -/
lemma relabel_append (t : Forest α) {l : List β} (h : l.length = t.nodes.length) (l' : List β) :
    t.relabel (l ++ l') = ((t.relabel l).1, l') := by
  induction t generalizing l l' with
  | nil =>
    obtain rfl := List.length_eq_zero_iff.1 h
    rfl
  | node v c s ihc ihs =>
    cases l with
    | nil => simp at h
    | cons x l =>
      simp only [nodes_node, List.length_cons, List.length_append] at h
      -- The children take their share of the values, the siblings what is left of them.
      have hc : (l.take c.nodes.length).length = c.nodes.length := by
        rw [List.length_take]
        omega
      have hs : (l.drop c.nodes.length).length = s.nodes.length := by
        rw [List.length_drop]
        omega
      have hcl := ihc hc (l.drop c.nodes.length)
      have hcl' := ihc hc (l.drop c.nodes.length ++ l')
      rw [List.take_append_drop] at hcl
      rw [← List.append_assoc, List.take_append_drop] at hcl'
      simp only [List.cons_append, relabel, hcl, hcl', ihs hs]

/-- The first value goes to the node, the next ones to its children, the others to its siblings. -/
lemma relabel_node (v : α) {c s : Forest α} (x : β) {l k : List β}
    (hc : l.length = c.nodes.length) :
    ((node v c s).relabel (x :: (l ++ k))).1 = node x (c.relabel l).1 (s.relabel k).1 := by
  simp only [relabel, relabel_append c hc]

lemma nodes_relabel (t : Forest α) {l : List β} (h : l.length = t.nodes.length) :
    (t.relabel l).1.nodes = l := by
  induction t generalizing l with
  | nil => exact (List.length_eq_zero_iff.1 h).symm
  | node v c s ihc ihs =>
    cases l with
    | nil => simp at h
    | cons x l =>
      simp only [nodes_node, List.length_cons, List.length_append] at h
      have hc : (l.take c.nodes.length).length = c.nodes.length := by
        rw [List.length_take]
        omega
      have hs : (l.drop c.nodes.length).length = s.nodes.length := by
        rw [List.length_drop]
        omega
      rw [← List.take_append_drop c.nodes.length l, relabel_node v x hc, nodes_node, ihc hc,
        ihs hs]

lemma length_relabel (t : Forest α) {l : List β} (h : l.length = t.nodes.length) :
    (t.relabel l).1.length = t.length := by
  induction t generalizing l with
  | nil => rfl
  | node v c s ihc ihs =>
    cases l with
    | nil => simp at h
    | cons x l =>
      simp only [nodes_node, List.length_cons, List.length_append] at h
      have hc : (l.take c.nodes.length).length = c.nodes.length := by
        rw [List.length_take]
        omega
      rw [← List.take_append_drop c.nodes.length l, relabel_node v x hc, length_node, length_node,
        ihs (by rw [List.length_drop]; omega)]

/-- The values, each after those of its children. -/
def postorder : Forest α → List α
  | nil => []
  | node v c s => c.postorder ++ v :: s.postorder

/-- The value of the last tree. -/
def lastValue : Forest α → Option α
  | nil => none
  | node v _ s => s.lastValue.or (some v)

lemma exists_lastValue {t : Forest α} (h : t ≠ nil) : ∃ v, t.lastValue = some v := by
  cases t with
  | nil => exact absurd rfl h
  | node v c s =>
    rw [lastValue]
    cases s.lastValue <;> simp

/-- The last of two trees or more is the last of those after the first. -/
lemma lastValue_node {v w : α} {c s : Forest α} (h : (node v c s).lastValue = some w)
    (hs : s ≠ nil) : s.lastValue = some w := by
  obtain ⟨x, hx⟩ := exists_lastValue hs
  rwa [lastValue, hx, Option.some_or, ← hx] at h

lemma lastValue_mem {t : Forest α} {v : α} (h : t.lastValue = some v) : v ∈ t.nodes := by
  induction t generalizing v with
  | nil => simp [lastValue] at h
  | node w c s _ ih =>
    rw [lastValue, Option.or_eq_some_iff] at h
    rcases h with h | ⟨-, h⟩
    · simp [ih h]
    · simp [Option.some.inj h]

/-- Where the first tree of a group is linked from: the whole tree's root, the link of a node to
its children, or that of a node to its next sibling. -/
inductive Cell (α : Type*)
  | root
  | child (v : α)
  | sibling (v : α)
  deriving DecidableEq

/-- What lies around a group: nothing, or the node whose children it is and that node's later
siblings, or the node right before it and that node's children. -/
inductive Ctx (α : Type*)
  | top
  | down (out : Ctx α) (v : α) (sibling : Forest α)
  | right (out : Ctx α) (v : α) (children : Forest α)

namespace Ctx

/-- The whole tree, with `t` at the place. -/
def fill : Ctx α → Forest α → Forest α
  | top, t => t
  | down C v s, t => C.fill (.node v t s)
  | right C v c, t => C.fill (.node v c t)

/-- The values around the place. -/
def nodes : Ctx α → List α
  | top => []
  | down C v s => v :: (s.nodes ++ C.nodes)
  | right C v c => v :: (c.nodes ++ C.nodes)

/-- The node whose children the group at the place belongs to. -/
def parent : Ctx α → Option α
  | top => none
  | down _ v _ => some v
  | right C _ _ => C.parent

/-- Where the group at the place is linked from. -/
def cell : Ctx α → Cell α
  | top => .root
  | down _ v _ => .child v
  | right _ v _ => .sibling v

/-- How deep the place is. -/
def depth : Ctx α → ℕ
  | top => 0
  | down C _ _ => C.depth + 1
  | right C _ _ => C.depth

/-- The nodes above the place, the nearest first. -/
def ancestors : Ctx α → List α
  | top => []
  | down C v _ => v :: C.ancestors
  | right C _ _ => C.ancestors

/-- How many siblings come before the place. -/
def before : Ctx α → ℕ
  | top => 0
  | down _ _ _ => 0
  | right C _ _ => C.before + 1

/-- The first sibling at the place's level, where the place itself starts with `x`. -/
def first : Ctx α → Option α → Option α
  | top, x => x
  | down _ _ _, x => x
  | right C v _, _ => C.first (some v)

/-- The place right after a group that hangs at this place. -/
def past : Ctx α → Forest α → Ctx α
  | C, .nil => C
  | C, .node v c s => (right C v c).past s

variable {C : Ctx α} {t u c s : Forest α} {v w : α} {p : α → Bool}

lemma nodes_fill (C : Ctx α) (t : Forest α) : (C.fill t).nodes ~ C.nodes ++ t.nodes := by
  induction C generalizing t with
  | top => exact .refl _
  | down C v s ih =>
    calc (C.fill (.node v t s)).nodes
        ~ C.nodes ++ v :: (t.nodes ++ s.nodes) := ih _
      _ ~ v :: (s.nodes ++ C.nodes ++ t.nodes) := by
          refine List.perm_middle.trans (.cons _ ?_)
          rw [← List.append_assoc]
          exact List.perm_append_comm.trans (by
            rw [← List.append_assoc] )
  | right C v c ih =>
    calc (C.fill (.node v c t)).nodes
        ~ C.nodes ++ v :: (c.nodes ++ t.nodes) := ih _
      _ ~ v :: (c.nodes ++ C.nodes ++ t.nodes) := by
          refine List.perm_middle.trans (.cons _ ?_)
          rw [← List.append_assoc]
          exact List.perm_append_comm.append_right _

lemma length_nodes_fill (C : Ctx α) (t : Forest α) :
    (C.fill t).nodes.length = C.nodes.length + t.nodes.length := by
  rw [(nodes_fill C t).length_eq, List.length_append]

lemma mem_fill : w ∈ (C.fill t).nodes ↔ w ∈ C.nodes ∨ w ∈ t.nodes := by
  rw [(nodes_fill C t).mem_iff, List.mem_append]

lemma fill_past (C : Ctx α) (t u : Forest α) : (C.past t).fill u = C.fill (t.append u) := by
  induction t generalizing C with
  | nil => rfl
  | node v c s _ ih => exact ih _

lemma parent_past (C : Ctx α) (t : Forest α) : (C.past t).parent = C.parent := by
  induction t generalizing C with
  | nil => rfl
  | node v c s _ ih => exact ih _

lemma depth_past (C : Ctx α) (t : Forest α) : (C.past t).depth = C.depth := by
  induction t generalizing C with
  | nil => rfl
  | node v c s _ ih => exact ih _

/-- A place right after a group is linked from the last node of the group. -/
lemma cell_past (C : Ctx α) (h : t.lastValue = some v) : (C.past t).cell = .sibling v := by
  induction t generalizing C v with
  | nil => simp [lastValue] at h
  | node w c s _ ih =>
    cases s with
    | nil => simpa [lastValue, past, cell] using h
    | node w' c' s' =>
      refine ih _ ?_
      rw [lastValue, Option.or_eq_some_iff] at h
      refine h.resolve_right fun h => ?_
      simp [lastValue] at h

lemma exists_first (C : Ctx α) (v : α) :
    ∃ x, C.first (some v) = some x ∧ (x = v ∨ x ∈ C.nodes) := by
  induction C generalizing v with
  | top => exact ⟨v, rfl, .inl rfl⟩
  | down C w s ih => exact ⟨v, rfl, .inl rfl⟩
  | right C w c ih =>
    obtain ⟨x, hx, h⟩ := ih w
    refine ⟨x, hx, .inr ?_⟩
    rcases h with rfl | h
    · simp [nodes]
    · simp [nodes, h]

lemma before_le (C : Ctx α) : C.before ≤ C.nodes.length := by
  induction C with
  | top => simp [before]
  | down C w s ih => simp [before]
  | right C w c ih =>
    rw [before, nodes, List.length_cons, List.length_append]
    omega

lemma before_of_child {C : Ctx α} {v : α} (h : C.cell = .child v) : C.before = 0 := by
  cases C with
  | top => rfl
  | down D w s => rfl
  | right D w c => simp [cell] at h

/-- Every node of a tree is the first of the group at some place. -/
lemma exists_fill (h : v ∈ t.nodes) : ∃ C c s, t = fill C (.node v c s) := by
  suffices ∀ D : Ctx α, ∃ C c s, D.fill t = fill C (.node v c s) from this .top
  induction t with
  | nil => simp at h
  | node w c s ihc ihs =>
    intro D
    rw [nodes_node, List.mem_cons, List.mem_append] at h
    rcases h with rfl | h | h
    · exact ⟨D, c, s, rfl⟩
    · exact ihc h (.down D w s)
    · exact ihs h (.right D w c)

/-- Below a node, or with as many trees at the place, the length of the whole is the same. -/
lemma length_fill (h : C.parent.isSome ∨ t.length = u.length) :
    (C.fill t).length = (C.fill u).length := by
  induction C generalizing t u with
  | top => simpa [parent, fill] using h
  | down C v s ih => exact ih (.inr rfl)
  | right C v c ih =>
    refine ih (h.imp id fun h => ?_)
    rw [length_node, length_node, h]

lemma rootValue_fill (h : C.parent.isSome ∨ t.rootValue = u.rootValue) :
    (C.fill t).rootValue = (C.fill u).rootValue := by
  induction C generalizing t u with
  | top => simpa [parent, fill] using h
  | down C v s ih => exact ih (.inr rfl)
  | right C v c ih => exact ih (.inr rfl)

/-- Around a place that is not the whole tree stands the tree's first node. -/
lemma rootValue_mem (h : C ≠ top) (t : Forest α) :
    ∃ x ∈ C.nodes, (C.fill t).rootValue = some x := by
  induction C generalizing t with
  | top => exact absurd rfl h
  | down C v s ih =>
    by_cases hC : C = top
    · exact ⟨v, by simp [nodes], by rw [hC]; rfl⟩
    · obtain ⟨x, hx, hr⟩ := ih hC (.node v t s)
      exact ⟨x, by simp [nodes, hx], hr⟩
  | right C v c ih =>
    by_cases hC : C = top
    · exact ⟨v, by simp [nodes], by rw [hC]; rfl⟩
    · obtain ⟨x, hx, hr⟩ := ih hC (.node v c t)
      exact ⟨x, by simp [nodes, hx], hr⟩

lemma length_fill_of_parent (h : C.parent = none) :
    (C.fill t).length = C.before + t.length := by
  induction C generalizing t with
  | top => simp [fill, before]
  | down C v s ih => simp [parent] at h
  | right C v c ih =>
    rw [fill, ih h, length_node, before]
    omega

/-- A tree with one root has that root alone at its top level. -/
lemma eq_top (h : (C.fill t).length ≤ 1) (ht : t ≠ nil) (hC : C.parent = none) : C = top := by
  have h1 : 0 < t.length := by
    cases t with
    | nil => exact absurd rfl ht
    | node v c s => simp
  rw [length_fill_of_parent hC] at h
  cases C with
  | top => rfl
  | down C v s => simp [parent] at hC
  | right C v c =>
    rw [before] at h
    omega

lemma nodup_fill : (C.fill t).nodes.Nodup ↔
    C.nodes.Nodup ∧ t.nodes.Nodup ∧ ∀ x ∈ C.nodes, x ∉ t.nodes := by
  rw [(nodes_fill C t).nodup_iff, List.nodup_append']
  rfl

lemma parent_mem (h : C.parent = some v) : v ∈ C.nodes := by
  induction C with
  | top => simp [parent] at h
  | down C w s ih =>
    obtain rfl := Option.some.inj h
    simp [nodes]
  | right C w c ih => simp [nodes, ih h]

lemma parent_mem_ancestors (h : C.parent = some v) : v ∈ C.ancestors := by
  induction C with
  | top => simp [parent] at h
  | down C w s ih =>
    obtain rfl := Option.some.inj h
    simp [ancestors]
  | right C w c ih => exact ih h

/-- The nodes above a place have what is there below them. -/
lemma exists_of_mem_ancestors (h : w ∈ C.ancestors) (t : Forest α) :
    ∃ D c s, C.fill t = fill D (.node w c s) ∧ ∀ x ∈ t.nodes, x ∈ c.nodes := by
  induction C generalizing t with
  | top => simp [ancestors] at h
  | down C v s ih =>
    rcases List.mem_cons.1 h with rfl | h
    · exact ⟨C, t, s, rfl, fun x hx => hx⟩
    obtain ⟨D, c, s', hD, hx⟩ := ih h (.node v t s)
    exact ⟨D, c, s', hD, fun x hxt => hx x (by simp [hxt])⟩
  | right C v c ih =>
    obtain ⟨D, c', s', hD, hx⟩ := ih h (.node v c t)
    exact ⟨D, c', s', hD, fun x hxt => hx x (by simp [hxt])⟩

end Ctx

variable {t c s : Forest α} {v : α} {p : α → Bool} {f : α → Forest α → Forest α → Forest α}
  {C : Ctx α}

lemma modifyAt_eq_self (h : ∀ x ∈ t.nodes, p x = false) : t.modifyAt p f = t := by
  induction t with
  | nil => rfl
  | node v c s ihc ihs =>
    simp only [nodes_node, List.forall_mem_cons, List.forall_mem_append] at h
    simp [modifyAt, h.1, ihc h.2.1, ihs h.2.2]

lemma remove_eq_modifyAt (p : α → Bool) (t : Forest α) :
    t.remove p = t.modifyAt p fun _ _ s => s := by
  induction t with
  | nil => rfl
  | node v c s ihc ihs => simp only [remove, modifyAt, ihc, ihs]

lemma childrenAt_eq_nil (h : ∀ x ∈ t.nodes, p x = false) : t.childrenAt p = nil := by
  induction t with
  | nil => rfl
  | node v c s ihc ihs =>
    simp only [nodes_node, List.forall_mem_cons, List.forall_mem_append] at h
    simp [childrenAt, h.1, ihc h.2.1, ihs h.2.2]

namespace Ctx

/-- A test met only at the place picks what it picks there. -/
lemma modifyAt_fill (h : ∀ x ∈ C.nodes, p x = false) (t : Forest α) :
    (C.fill t).modifyAt p f = C.fill (t.modifyAt p f) := by
  induction C generalizing t with
  | top => rfl
  | down C w s ih =>
    simp only [nodes, List.forall_mem_cons, List.forall_mem_append] at h
    rw [fill, ih h.2.2, modifyAt, h.1, modifyAt_eq_self h.2.1]
    rfl
  | right C w c ih =>
    simp only [nodes, List.forall_mem_cons, List.forall_mem_append] at h
    rw [fill, ih h.2.2, modifyAt, h.1, modifyAt_eq_self h.2.1]
    rfl

lemma childrenAt_fill (h : ∀ x ∈ C.nodes, p x = false) (t : Forest α) :
    (C.fill t).childrenAt p = t.childrenAt p := by
  induction C generalizing t with
  | top => rfl
  | down C w s ih =>
    simp only [nodes, List.forall_mem_cons, List.forall_mem_append] at h
    simp [fill, ih h.2.2, childrenAt, h.1, childrenAt_eq_nil h.2.1]
  | right C w c ih =>
    simp only [nodes, List.forall_mem_cons, List.forall_mem_append] at h
    simp [fill, ih h.2.2, childrenAt, h.1, childrenAt_eq_nil h.2.1]

lemma subtreeAt_fill (h : ∀ x ∈ C.nodes, p x = false) (t : Forest α) :
    (C.fill t).subtreeAt p = t.subtreeAt p := by
  have hnone : ∀ {u : Forest α}, (∀ x ∈ u.nodes, p x = false) → u.subtreeAt p = [] := by
    intro u hu
    exact subtreeAt_eq_nil (List.countP_eq_zero.2 fun x hx => by simp [hu x hx])
  induction C generalizing t with
  | top => rfl
  | down C w s ih =>
    simp only [nodes, List.forall_mem_cons, List.forall_mem_append] at h
    simp [fill, ih h.2.2, subtreeAt, h.1, hnone h.2.1]
  | right C w c ih =>
    simp only [nodes, List.forall_mem_cons, List.forall_mem_append] at h
    simp [fill, ih h.2.2, subtreeAt, h.1, hnone h.2.1]

end Ctx

end Forest

end SteepSystem.Lib
