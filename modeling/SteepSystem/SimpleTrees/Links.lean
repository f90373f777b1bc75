import SteepSystem.SimpleTrees.Model

/-!
What the memory has to hold for the trees that it stands for. The links, the depths and the
child counts of a tree are read off its shape; a change at one place of it is right when the
group there is linked, the link to the place is set, and the parent's count has moved with the
group's length.
-/

namespace SteepSystem.SimpleTrees

open SteepSystem.Lib SteepSystem.Lib.Forest

/-- The trees that the memory stands for. -/
abbrev Trees := TreeId → Forest NodeId

/-- What a node holds: its links, its depth where one is asked for, and its child count. -/
structure Holds (r : SimpleTreeNode) (slibling child parent : Option NodeId) (depth : Option ℕ)
    (children : ℕ) : Prop where
  slibling : r.pnodeSlibling = slibling
  child : r.pnodeChild = child
  parent : r.pnodeParent = parent
  depth : ∀ d ∈ depth, r.nodeDepth = d
  children : r.nodeChildren = children

/-- A group with one parent: the nodes hold the links of the shape, the last of the group is
linked to `next`, and depths count up from `depth` where one is asked for. -/
def Linked (m : Memory) : Option NodeId → Option ℕ → Option NodeId → Forest NodeId → Prop
  | _, _, _, .nil => True
  | parent, depth, next, .node v c s =>
    Holds (m.node v) (s.rootValue.or next) c.rootValue parent depth c.length ∧
      Linked m (some v) (depth.map (· + 1)) none c ∧ Linked m parent depth next s

/-- The nodes around a place hold what they have to when the place starts with `x` and has `k`
nodes. -/
def LinkedAround (m : Memory) : Ctx NodeId → Option NodeId → ℕ → Prop
  | .top, _, _ => True
  | .down C v s, x, k =>
    Holds (m.node v) s.rootValue x C.parent (some C.depth) k ∧
      Linked m C.parent (some C.depth) none s ∧ LinkedAround m C (some v) (s.length + 1)
  | .right C v c, x, k =>
    Holds (m.node v) x c.rootValue C.parent (some C.depth) c.length ∧
      Linked m (some v) (some (C.depth + 1)) none c ∧ LinkedAround m C (some v) (k + 1)

/-- The memory stands for the trees: each has one root at most and no node is in two places, the
links, depths and counts are those of the shapes, and the trees count their nodes. -/
structure Represents (m : Memory) (a : Trees) : Prop where
  root : ∀ t, (m.tree t).root = (a t).rootValue
  nodesNum : ∀ t, (m.tree t).nodesNum = (a t).nodes.length
  linked : ∀ t, Linked m none (some 0) none (a t)
  rooted : ∀ t, (a t).length ≤ 1
  nodup : ∀ t, (a t).nodes.Nodup
  apart : ∀ t u, t ≠ u → ∀ v ∈ (a t).nodes, v ∉ (a u).nodes

/-- What a change at a place may do to a node around it: the link to the place becomes `x`, and
the parent's count goes with the length of the group there, from `k` to `k'`. -/
structure Repointed (C : Ctx NodeId) (x : Option NodeId) (k k' : ℕ) (v : NodeId)
    (r r' : SimpleTreeNode) : Prop where
  slibling : r'.pnodeSlibling = if C.cell = .sibling v then x else r.pnodeSlibling
  child : r'.pnodeChild = if C.cell = .child v then x else r.pnodeChild
  parent : r'.pnodeParent = r.pnodeParent
  depth : r'.nodeDepth = r.nodeDepth
  counted : C.parent = some v → r'.nodeChildren + k = r.nodeChildren + k'
  children : C.parent ≠ some v → r'.nodeChildren = r.nodeChildren

variable {m m' : Memory} {p next x : Option NodeId} {d : Option ℕ}
  {t u s c : Forest NodeId} {v w : NodeId} {C : Ctx NodeId} {k k' : ℕ} {a : Trees}

lemma Linked.congr (h : Linked m p d next t)
    (hm : ∀ v ∈ t.nodes, m'.node v = m.node v) : Linked m' p d next t := by
  induction t generalizing p d next with
  | nil => trivial
  | node v c s ihc ihs =>
    simp only [nodes_node, List.forall_mem_cons, List.forall_mem_append] at hm
    exact ⟨hm.1 ▸ h.1, ihc h.2.1 hm.2.1, ihs h.2.2 hm.2.2⟩

/-- Two nodes that differ in their depths at most. -/
def SameLinks (r r' : SimpleTreeNode) : Prop := { r' with nodeDepth := r.nodeDepth } = r

/-- Where no depths are asked for, they may change. -/
lemma Linked.loose (h : Linked m p d next t)
    (hm : ∀ v ∈ t.nodes, SameLinks (m.node v) (m'.node v)) : Linked m' p none next t := by
  induction t generalizing p d next with
  | nil => trivial
  | node v c s ihc ihs =>
    simp only [nodes_node, List.forall_mem_cons, List.forall_mem_append] at hm
    obtain ⟨hv, hc, hs⟩ := hm
    refine ⟨?_, ihc h.2.1 hc, ihs h.2.2 hs⟩
    have := h.1
    rw [← hv] at this
    exact ⟨this.slibling, this.child, this.parent, by simp, this.children⟩

lemma Linked.last {l : NodeId} (h : Linked m p d next t) (hl : t.lastValue = some l) :
    (m.node l).pnodeSlibling = next := by
  induction t generalizing l with
  | nil => simp [lastValue] at hl
  | node v c s _ ih =>
    cases s with
    | nil =>
      obtain rfl : v = l := by simpa [lastValue] using hl
      exact h.1.slibling
    | node w c' s' =>
      refine ih h.2.2 ?_
      rw [lastValue, Option.or_eq_some_iff] at hl
      refine hl.resolve_right fun hl => ?_
      rw [lastValue] at hl
      simp at hl

/-- The last node of a group linked on. -/
lemma Linked.setLast {l : NodeId} {y : Option NodeId} (h : Linked m p d y t) (hl : t.lastValue = some l)
    (hd : t.nodes.Nodup) (hml : m'.node l = { m.node l with pnodeSlibling := next })
    (hm : ∀ v ∈ t.nodes, v ≠ l → m'.node v = m.node v) : Linked m' p d next t := by
  induction t with
  | nil => trivial
  | node v c s _ ih =>
    simp only [nodes_node, List.forall_mem_cons, List.forall_mem_append] at hm
    simp only [nodes_node, List.nodup_cons, List.nodup_append', List.mem_append, not_or] at hd
    obtain ⟨⟨hvc, hvs⟩, hdc, hds, hcs⟩ := hd
    cases s with
    | nil =>
      obtain rfl : v = l := by simpa [lastValue] using hl
      refine ⟨?_, h.2.1.congr fun u hu => hm.2.1 u hu (ne_of_mem_of_not_mem hu hvc), trivial⟩
      rw [hml]
      exact ⟨rfl, h.1.child, h.1.parent, h.1.depth, h.1.children⟩
    | node w c' s' =>
      have hl' : (node w c' s').lastValue = some l := by
        rw [lastValue, Option.or_eq_some_iff] at hl
        refine hl.resolve_right fun hl => ?_
        rw [lastValue] at hl
        simp at hl
      have hls := lastValue_mem hl'
      refine ⟨hm.1 (fun hvl => hvs (hvl ▸ hls)) ▸ ?_, h.2.1.congr fun u hu => hm.2.1 u hu ?_,
        ih h.2.2 hl' hds hm.2.2⟩
      · simpa using h.1
      · rintro rfl
        exact hcs hu hls

lemma linked_append : Linked m p d next (t.append u) ↔
    Linked m p d (u.rootValue.or next) t ∧ Linked m p d next u := by
  induction t with
  | nil => simp [Linked]
  | node v c s _ ih =>
    have hroot : (s.append u).rootValue.or next = s.rootValue.or (u.rootValue.or next) := by
      cases s <;> simp
    simp only [node_append, Linked, ih, hroot, and_assoc]

lemma linked_fill : Linked m none (some 0) none (C.fill t) ↔
    LinkedAround m C t.rootValue t.length ∧ Linked m C.parent (some C.depth) none t := by
  induction C generalizing t with
  | top => simp [Ctx.fill, LinkedAround, Ctx.parent, Ctx.depth]
  | down C v s ih =>
    simp only [Ctx.fill, ih, Linked, LinkedAround, Ctx.parent, Ctx.depth, rootValue_node,
      length_node, Option.or_none, Option.map_some]
    tauto
  | right C v c ih =>
    simp only [Ctx.fill, ih, Linked, LinkedAround, Ctx.parent, Ctx.depth, rootValue_node,
      length_node, Option.or_none, Option.map_some]
    tauto

lemma LinkedAround.congr (h : LinkedAround m C x k) (hm : ∀ v ∈ C.nodes, m'.node v = m.node v) :
    LinkedAround m' C x k := by
  induction C generalizing x k with
  | top => trivial
  | down C v s ih =>
    simp only [Ctx.nodes, List.forall_mem_cons, List.forall_mem_append] at hm
    exact ⟨hm.1 ▸ h.1, h.2.1.congr hm.2.1, ih h.2.2 hm.2.2⟩
  | right C v c ih =>
    simp only [Ctx.nodes, List.forall_mem_cons, List.forall_mem_append] at hm
    exact ⟨hm.1 ▸ h.1, h.2.1.congr hm.2.1, ih h.2.2 hm.2.2⟩

/-- What the parent of a place counts. -/
lemma LinkedAround.children (h : LinkedAround m C x k) (hv : C.parent = some v) :
    (m.node v).nodeChildren = C.before + k := by
  induction C generalizing x k with
  | top => simp [Ctx.parent] at hv
  | down C w s ih =>
    obtain rfl := Option.some.inj hv
    rw [h.1.children, Ctx.before, Nat.zero_add]
  | right C w c ih =>
    rw [ih h.2.2 hv, Ctx.before]
    omega

/-- The parent of a place is linked to the first node of the place's level. -/
lemma LinkedAround.first (h : LinkedAround m C x k) (hv : C.parent = some v) :
    (m.node v).pnodeChild = C.first x := by
  induction C generalizing x k with
  | top => simp [Ctx.parent] at hv
  | down C w s ih =>
    obtain rfl := Option.some.inj hv
    exact h.1.child
  | right C w c ih => exact ih h.2.2 hv

/-- The link to a place holds what the place starts with. -/
lemma LinkedAround.sibling (h : LinkedAround m C x k) (hv : C.cell = .sibling v) :
    (m.node v).pnodeSlibling = x := by
  cases C with
  | top => simp [Ctx.cell] at hv
  | down C w s => simp [Ctx.cell] at hv
  | right C w c =>
    obtain rfl := Cell.sibling.inj hv
    exact h.1.slibling

/-- How deep the parent of a place is. -/
lemma LinkedAround.depth (h : LinkedAround m C x k) (hv : C.parent = some v) :
    (m.node v).nodeDepth + 1 = C.depth := by
  induction C generalizing x k with
  | top => simp [Ctx.parent] at hv
  | down C w s ih =>
    obtain rfl := Option.some.inj hv
    rw [h.1.depth _ rfl, Ctx.depth]
  | right C w c ih => exact ih h.2.2 hv

/-- A node that is neither the parent nor the one linked to the place stays as it is. -/
lemma Repointed.eq {r r' : SimpleTreeNode} (h : Repointed C x k k' v r r')
    (hs : C.cell ≠ .sibling v) (hc : C.cell ≠ .child v) (hp : C.parent ≠ some v) : r' = r := by
  have h1 := h.slibling
  have h2 := h.child
  rw [if_neg hs] at h1
  rw [if_neg hc] at h2
  exact SimpleTreeNode.ext h1 h2 h.parent h.depth (h.children hp)

/-- Where only the parent's count moves, with the length of what is at the place. -/
lemma LinkedAround.recount (h : LinkedAround m C x k) (hd : C.nodes.Nodup)
    (hm : ∀ u ∈ C.nodes, m'.node u = { m.node u with nodeChildren := (m'.node u).nodeChildren })
    (hp : ∀ u ∈ C.nodes, C.parent = some u →
      (m'.node u).nodeChildren + k = (m.node u).nodeChildren + k')
    (hsame : ∀ u ∈ C.nodes, C.parent ≠ some u → m'.node u = m.node u) :
    LinkedAround m' C x k' := by
  induction C generalizing x k k' with
  | top => trivial
  | down C v s ih =>
    simp only [Ctx.nodes, List.nodup_cons, List.nodup_append', List.mem_append, not_or] at hd
    simp only [Ctx.nodes, List.forall_mem_cons, List.forall_mem_append, Ctx.parent,
      Option.some.injEq, ne_eq, not_true_eq_false, false_implies, true_and, forall_const]
      at hm hsame hp
    obtain ⟨⟨hvs, hvC⟩, hds, hdC, -⟩ := hd
    have hs : ∀ u ∈ s.nodes, m'.node u = m.node u := fun u hu =>
      hsame.1 u hu fun hvu => hvs (hvu ▸ hu)
    have hC : ∀ u ∈ C.nodes, m'.node u = m.node u := fun u hu =>
      hsame.2 u hu fun hvu => hvC (hvu ▸ hu)
    refine ⟨?_, h.2.1.congr hs, h.2.2.congr hC⟩
    have hk := hp.1
    have h1 := h.1
    rw [h1.children] at hk
    rw [hm.1]
    exact ⟨h1.slibling, h1.child, h1.parent, h1.depth, by dsimp only; omega⟩
  | right C v c ih =>
    simp only [Ctx.nodes, List.nodup_cons, List.nodup_append', List.mem_append, not_or] at hd
    simp only [Ctx.nodes, List.forall_mem_cons, List.forall_mem_append, Ctx.parent]
      at hm hsame hp
    obtain ⟨⟨hvc, hvC⟩, hdc, hdC, hcC⟩ := hd
    have hv : C.parent ≠ some v := fun hp => hvC (Ctx.parent_mem hp)
    have hc : ∀ u ∈ c.nodes, m'.node u = m.node u := fun u hu =>
      hsame.2.1 u hu fun hp => hcC hu (Ctx.parent_mem hp)
    refine ⟨hsame.1 hv ▸ h.1, h.2.1.congr hc, ih h.2.2 hdC hm.2.2 ?_ hsame.2.2⟩
    intro u hu hpu
    have := hp.2.2 u hu hpu
    omega

/-- **A place repointed.** The nodes around a place follow a change of what is there. -/
lemma LinkedAround.repoint (h : LinkedAround m C x k) (hd : C.nodes.Nodup) {x' : Option NodeId}
    (hm : ∀ u ∈ C.nodes, Repointed C x' k k' u (m.node u) (m'.node u)) :
    LinkedAround m' C x' k' := by
  cases C with
  | top => trivial
  | down C v s =>
    simp only [Ctx.nodes, List.nodup_cons, List.nodup_append', List.mem_append, not_or] at hd
    simp only [Ctx.nodes, List.forall_mem_cons, List.forall_mem_append] at hm
    obtain ⟨⟨hvs, hvC⟩, hds, hdC, -⟩ := hd
    obtain ⟨hv, hs, hC⟩ := hm
    have hk := hv.counted rfl
    rw [h.1.children] at hk
    have hsame : ∀ {u}, u ≠ v → Repointed (Ctx.down C v s) x' k k' u (m.node u) (m'.node u) →
        m'.node u = m.node u := by
      intro u hu hr
      refine hr.eq ?_ ?_ ?_ <;> simp [Ctx.cell, Ctx.parent, Ne.symm hu]
    refine ⟨⟨?_, ?_, ?_, ?_, by omega⟩,
      h.2.1.congr fun u hu => hsame (ne_of_mem_of_not_mem hu hvs) (hs u hu),
      h.2.2.congr fun u hu => hsame (ne_of_mem_of_not_mem hu hvC) (hC u hu)⟩
    · rw [hv.slibling, if_neg (by simp [Ctx.cell]), h.1.slibling]
    · rw [hv.child, if_pos (by rfl)]
    · rw [hv.parent, h.1.parent]
    · rw [hv.depth]
      exact h.1.depth
  | right C v c =>
    simp only [Ctx.nodes, List.nodup_cons, List.nodup_append', List.mem_append, not_or] at hd
    simp only [Ctx.nodes, List.forall_mem_cons, List.forall_mem_append] at hm
    obtain ⟨⟨hvc, hvC⟩, hdc, hdC, hcC⟩ := hd
    obtain ⟨hv, hc, hC⟩ := hm
    have hpv : C.parent ≠ some v := fun hp => hvC (Ctx.parent_mem hp)
    have hcell : ∀ {u}, u ∈ C.nodes → (Ctx.right C v c).cell ≠ .sibling u := fun hu => by
      simpa [Ctx.cell] using (ne_of_mem_of_not_mem hu hvC).symm
    refine ⟨⟨?_, ?_, ?_, ?_, ?_⟩, h.2.1.congr fun u hu => (hc u hu).eq ?_ ?_ ?_,
      h.2.2.recount hdC (fun u hu => ?_) (fun u hu hp => ?_) fun u hu hp => ?_⟩
    · rw [hv.slibling, if_pos (by rfl)]
    · rw [hv.child, if_neg (by simp [Ctx.cell]), h.1.child]
    · rw [hv.parent, h.1.parent]
    · rw [hv.depth]
      exact h.1.depth
    · rw [hv.children hpv, h.1.children]
    · simpa [Ctx.cell] using (ne_of_mem_of_not_mem hu hvc).symm
    · simp [Ctx.cell]
    · exact fun hp => hcC hu (Ctx.parent_mem hp)
    · have h1 := (hC u hu).slibling
      have h2 := (hC u hu).child
      rw [if_neg (hcell hu)] at h1
      rw [if_neg (by simp [Ctx.cell])] at h2
      exact SimpleTreeNode.ext h1 h2 (hC u hu).parent (hC u hu).depth rfl
    · have := (hC u hu).counted hp
      omega
    · exact (hC u hu).eq (hcell hu) (by simp [Ctx.cell]) hp

/-- **A place refilled.** A change that links a new group at a place of one tree, and leaves the
other trees alone, stands for that tree with the new group at the place. -/
theorem Represents.refill (h : Represents m a) {i : TreeId} (ha : a i = C.fill t)
    (hC : ∀ v ∈ C.nodes, Repointed C u.rootValue t.length u.length v (m.node v) (m'.node v))
    (hu : Linked m' C.parent (some C.depth) none u) (hd : u.nodes.Nodup)
    (hCu : ∀ v ∈ C.nodes, v ∉ u.nodes)
    (hother : ∀ j ≠ i, ∀ v ∈ (a j).nodes, m'.node v = m.node v ∧ v ∉ u.nodes)
    (hlen : (C.fill u).length ≤ 1) (htree : ∀ j ≠ i, m'.tree j = m.tree j)
    (hroot : (m'.tree i).root = (C.fill u).rootValue)
    (hnum : (m'.tree i).nodesNum + t.nodes.length = (m.tree i).nodesNum + u.nodes.length) :
    Represents m' (Function.update a i (C.fill u)) := by
  have hdC : C.nodes.Nodup ∧ t.nodes.Nodup ∧ ∀ x ∈ C.nodes, x ∉ t.nodes := by
    rw [← Ctx.nodup_fill, ← ha]
    exact h.nodup i
  have hlinked : Linked m none (some 0) none (C.fill t) := ha ▸ h.linked i
  have hcount : (m.tree i).nodesNum = C.nodes.length + t.nodes.length := by
    rw [h.nodesNum, ha, Ctx.length_nodes_fill]
  have hold : ∀ j ≠ i, ∀ v ∈ (a j).nodes, v ∉ (C.fill u).nodes := by
    intro j hj v hv hvu
    rcases Ctx.mem_fill.1 hvu with hvC | hvu
    · exact h.apart j i hj v hv (by rw [ha]; exact Ctx.mem_fill.2 (.inl hvC))
    · exact (hother j hj v hv).2 hvu
  refine ⟨fun j => ?_, fun j => ?_, fun j => ?_, fun j => ?_, fun j => ?_, fun j l hjl v => ?_⟩
  all_goals by_cases hj : j = i
  · rw [hj, Function.update_self, hroot]
  · rw [Function.update_of_ne hj, htree j hj, h.root]
  · rw [hj, Function.update_self, Ctx.length_nodes_fill]
    omega
  · rw [Function.update_of_ne hj, htree j hj, h.nodesNum]
  · rw [hj, Function.update_self, linked_fill]
    exact ⟨(linked_fill.1 hlinked).1.repoint hdC.1 hC, hu⟩
  · rw [Function.update_of_ne hj]
    exact (h.linked j).congr fun v hv => (hother j hj v hv).1
  · rwa [hj, Function.update_self]
  · rw [Function.update_of_ne hj]
    exact h.rooted j
  · rw [hj, Function.update_self, Ctx.nodup_fill]
    exact ⟨hdC.1, hd, hCu⟩
  · rw [Function.update_of_ne hj]
    exact h.nodup j
  · rw [hj] at hjl ⊢
    rw [Function.update_self, Function.update_of_ne (Ne.symm hjl)]
    exact fun hv hvl => hold l (Ne.symm hjl) v hvl hv
  · rw [Function.update_of_ne hj]
    by_cases hl : l = i
    · rw [hl, Function.update_self]
      exact hold j hj v
    · rw [Function.update_of_ne hl]
      exact h.apart j l hjl v

/-- Below a node neither the root nor the number of roots changes. -/
theorem Represents.refill_below (h : Represents m a) {i : TreeId} (ha : a i = C.fill t)
    (hp : C.parent = some w)
    (hC : ∀ v ∈ C.nodes, Repointed C u.rootValue t.length u.length v (m.node v) (m'.node v))
    (hu : Linked m' C.parent (some C.depth) none u) (hd : u.nodes.Nodup)
    (hCu : ∀ v ∈ C.nodes, v ∉ u.nodes)
    (hother : ∀ j ≠ i, ∀ v ∈ (a j).nodes, m'.node v = m.node v ∧ v ∉ u.nodes)
    (htree : ∀ j ≠ i, m'.tree j = m.tree j) (hroot : (m'.tree i).root = (m.tree i).root)
    (hnum : (m'.tree i).nodesNum + t.nodes.length = (m.tree i).nodesNum + u.nodes.length) :
    Represents m' (Function.update a i (C.fill u)) := by
  have hsome : C.parent.isSome := by rw [hp]; rfl
  refine h.refill ha hC hu hd hCu hother ?_ htree ?_ hnum
  · rw [Ctx.length_fill (u := t) (.inl hsome), ← ha]
    exact h.rooted i
  · rw [hroot, h.root, ha]
    exact Ctx.rootValue_fill (.inl hsome)

end SteepSystem.SimpleTrees
