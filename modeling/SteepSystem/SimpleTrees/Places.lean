import SteepSystem.SimpleTrees.Loops

/-!
Where a node stands in the trees, and the three changes that the operations are made of: a group
hung in at a place, a node cut out with what is below it, and the children taken from a node.
-/

namespace SteepSystem.SimpleTrees

open SteepSystem.Lib SteepSystem.Lib.Forest

/-- The test that picks one node. -/
def here (v : NodeId) : NodeId → Bool := fun u => decide (u = v)

/-- The group `g` hung in at the node `dst`: among its siblings or among its children. -/
def place (opt : TreeOpt) (dst : NodeId) (g t : Forest NodeId) : Forest NodeId :=
  t.modifyAt (here dst) fun v c s =>
    match opt with
    | .insertBefore => g.append (.node v c s)
    | .insertAfter => .node v c (g.append s)
    | .addFirst => .node v (g.append c) s
    | .addLast => .node v (c.append g) s

/-- The tree without what is below `v`. -/
def childless (v : NodeId) (t : Forest NodeId) : Forest NodeId :=
  t.modifyAt (here v) fun v _ s => .node v .nil s

/-- A node with no children. -/
def leaf (v : NodeId) : Forest NodeId := .node v .nil .nil

/-- Where `v` stands in the tree `i`: what is around it, its children and the siblings after it. -/
structure Located (m : Memory) (a : Trees) (i : TreeId) (C : Ctx NodeId) (v : NodeId)
    (c s : Forest NodeId) : Prop where
  tree : a i = C.fill (.node v c s)
  around : LinkedAround m C (some v) (s.length + 1)
  linked : Linked m C.parent (some C.depth) none (.node v c s)
  nodupAround : C.nodes.Nodup
  nodup : (node v c s).nodes.Nodup
  apart : ∀ u ∈ C.nodes, u ∉ (node v c s).nodes

/-- What a node around a place holds after the link to the place is set to `x` and the parent's
count goes through `f`. -/
def relink (C : Ctx NodeId) (x : Option NodeId) (f : ℕ → ℕ) (v : NodeId) (r : SimpleTreeNode) :
    SimpleTreeNode where
  pnodeSlibling := if C.cell = .sibling v then x else r.pnodeSlibling
  pnodeChild := if C.cell = .child v then x else r.pnodeChild
  pnodeParent := r.pnodeParent
  nodeDepth := r.nodeDepth
  nodeChildren := if C.parent = some v then f r.nodeChildren else r.nodeChildren

variable {m m' : Memory} {a : Trees} {i j : TreeId} {C : Ctx NodeId} {v w : NodeId}
  {c s t g : Forest NodeId} {n : ℕ} {opt : TreeOpt}

lemma here_of_notMem {l : List NodeId} (h : v ∉ l) : ∀ x ∈ l, here v x = false := by
  intro x hx
  simp [here, ne_of_mem_of_not_mem hx h]

lemma Represents.located (h : Represents m a) (hv : v ∈ (a i).nodes) :
    ∃ C c s, Located m a i C v c s := by
  obtain ⟨C, c, s, hC⟩ := Ctx.exists_fill hv
  have hl := linked_fill.1 (hC ▸ h.linked i)
  have hd := Ctx.nodup_fill.1 (hC ▸ h.nodup i)
  exact ⟨C, c, s, hC, hl.1, hl.2, hd.1, hd.2.1, hd.2.2⟩

namespace Located

variable (L : Located m a i C v c s)

include L

lemma notMem : v ∉ C.nodes := fun hv => L.apart v hv (by simp)

lemma mem : v ∈ (a i).nodes := by
  rw [L.tree, Ctx.mem_fill]
  simp

lemma mem_of_around (hw : w ∈ C.nodes) : w ∈ (a i).nodes := by
  rw [L.tree, Ctx.mem_fill]
  exact .inl hw

lemma length_le : C.nodes.length + (c.nodes.length + s.nodes.length + 1) = (a i).nodes.length := by
  rw [L.tree, Ctx.length_nodes_fill, nodes_node, List.length_cons, List.length_append]

lemma modifyAt (f : NodeId → Forest NodeId → Forest NodeId → Forest NodeId) :
    (a i).modifyAt (here v) f = C.fill (f v c s) := by
  rw [L.tree, Ctx.modifyAt_fill (here_of_notMem L.notMem), Forest.modifyAt, here]
  simp

lemma childrenAt : (a i).childrenAt (here v) = c := by
  rw [L.tree, Ctx.childrenAt_fill (here_of_notMem L.notMem), Forest.childrenAt, here]
  simp

lemma remove : (a i).remove (here v) = C.fill s := by
  rw [remove_eq_modifyAt, L.modifyAt]

lemma childless : childless v (a i) = C.fill (.node v .nil s) := by
  rw [SimpleTrees.childless, L.modifyAt]

lemma subtreeAt : (a i).subtreeAt (here v) = v :: c.nodes := by
  rw [L.tree, Ctx.subtreeAt_fill (here_of_notMem L.notMem), Forest.subtreeAt, here]
  simp

/-- A node that is not the root has a parent. -/
lemma exists_parent (h : Represents m a) (hr : (m.tree i).root ≠ some v) :
    ∃ w, C.parent = some w := by
  cases hp : C.parent with
  | some w => exact ⟨w, rfl⟩
  | none =>
    have htop := Ctx.eq_top (L.tree ▸ h.rooted i) (by simp) hp
    refine absurd ?_ hr
    rw [h.root, L.tree, htop]
    rfl

/-- A root has nothing around it and no siblings. -/
lemma eq_top (h : Represents m a) (hr : (m.tree i).root = some v) : C = .top ∧ s = .nil := by
  have htop : C = .top := by
    by_contra hC
    obtain ⟨x, hx, hroot⟩ := Ctx.rootValue_mem hC (.node v c s)
    rw [h.root, L.tree, hroot] at hr
    exact L.notMem (Option.some.inj hr ▸ hx)
  have hlen := h.rooted i
  rw [L.tree, htop] at hlen
  refine ⟨htop, ?_⟩
  cases s with
  | nil => rfl
  | node u c' s' => simp [Ctx.fill] at hlen

end Located

lemma relink_repointed (t g : Forest NodeId) (r : SimpleTreeNode) :
    Repointed C (g.append t).rootValue t.length (g.append t).length v r
      (relink C (g.append t).rootValue (· + g.length) v r) := by
  refine ⟨rfl, rfl, rfl, rfl, fun hp => ?_, fun hp => ?_⟩
  · simp only [relink, if_pos hp, length_append]
    omega
  · simp only [relink, if_neg hp]

lemma cell_mem {C : Ctx NodeId} (h : C.cell = .sibling v ∨ C.cell = .child v) : v ∈ C.nodes := by
  cases C with
  | top => simp [Ctx.cell] at h
  | down D u s =>
    simp only [Ctx.cell, reduceCtorEq, Cell.child.injEq, false_or] at h
    simp [Ctx.nodes, h]
  | right D u c =>
    simp only [Ctx.cell, reduceCtorEq, Cell.sibling.injEq, or_false] at h
    simp [Ctx.nodes, h]

lemma relink_of_notMem {x : Option NodeId} {f : ℕ → ℕ} {r : SimpleTreeNode} (h : v ∉ C.nodes) :
    relink C x f v r = r := by
  unfold relink
  rw [if_neg fun hs => h (cell_mem (.inl hs)), if_neg fun hc => h (cell_mem (.inr hc)),
    if_neg fun hp => h (Ctx.parent_mem hp)]

/-- **A group hung in.** The new group is linked under the place's parent and before what was
there; the nodes around the place count it and are linked to it; nothing else changes. -/
theorem Represents.hang (h : Represents m a) (ha : a i = C.fill t) (hp : C.parent = some w)
    (hg : g ≠ nil) (hd : g.nodes.Nodup) (hfree : ∀ j, ∀ u ∈ (a j).nodes, u ∉ g.nodes)
    (hl : Linked m' C.parent (some C.depth) t.rootValue g)
    (hout : ∀ u ∉ g.nodes, m'.node u = relink C g.rootValue (· + g.length) u (m.node u))
    (htree : m'.tree = fun j =>
      if j = i then { m.tree j with nodesNum := (m.tree j).nodesNum + g.nodes.length }
      else m.tree j) :
    Represents m' (Function.update a i (C.fill (g.append t))) := by
  have hroot : (g.append t).rootValue = g.rootValue := by
    cases g with
    | nil => exact absurd rfl hg
    | node => rfl
  have hdt := Ctx.nodup_fill.1 (ha ▸ h.nodup i)
  have hmem : ∀ u, u ∈ C.nodes ∨ u ∈ t.nodes → u ∈ (a i).nodes := fun u hu => by
    rw [ha]
    exact Ctx.mem_fill.2 hu
  have hsame : ∀ j, ∀ u ∈ (a j).nodes, u ∉ C.nodes → m'.node u = m.node u := fun j u hu hC => by
    rw [hout u (hfree j u hu), relink_of_notMem hC]
  refine h.refill_below ha hp (fun u hu => ?_) ?_ ?_ (fun u hu hgt => ?_) (fun j hj u hu => ?_)
    (fun j hj => ?_) ?_ ?_
  · rw [hout u (hfree i u (hmem u (.inl hu))), ← hroot]
    exact relink_repointed t g _
  · refine linked_append.2 ⟨by rwa [Option.or_none], ?_⟩
    exact (linked_fill.1 (ha ▸ h.linked i)).2.congr fun u hu =>
      hsame i u (hmem u (.inr hu)) fun hC => hdt.2.2 u hC hu
  · rw [nodes_append, List.nodup_append']
    exact ⟨hd, hdt.2.1, fun u hu hut => hfree i u (hmem u (.inr hut)) hu⟩
  · rw [nodes_append, List.mem_append] at hgt
    exact hgt.elim (hfree i u (hmem u (.inl hu))) (hdt.2.2 u hu)
  · have hui : u ∉ (a i).nodes := h.apart j i hj u hu
    refine ⟨hsame j u hu fun hC => hui (hmem u (.inl hC)), ?_⟩
    rw [nodes_append, List.mem_append, not_or]
    exact ⟨hfree j u hu, fun ht => hui (hmem u (.inr ht))⟩
  · rw [htree]
    simp [hj]
  · rw [htree]
    simp
  · rw [htree]
    simp only [if_pos, nodes_append, List.length_append]
    omega

/-- **A node cut out.** The nodes around it are linked past it and no longer count it; what
becomes of the node and of those below it does not matter. -/
theorem Represents.cut (h : Represents m a) (L : Located m a i C v c s)
    (hout : ∀ u ∉ (node v c .nil).nodes, m'.node u = relink C s.rootValue (· - 1) u (m.node u))
    (hroot : (m'.tree i).root = (C.fill s).rootValue)
    (hnum : (m'.tree i).nodesNum + (c.nodes.length + 1) = (m.tree i).nodesNum)
    (htree : ∀ j ≠ i, m'.tree j = m.tree j) :
    Represents m' (Function.update a i (C.fill s)) := by
  obtain ⟨⟨hvc, hvs⟩, hdc, hds, hcs⟩ := nodup_node.1 L.nodup
  have hmem : ∀ u, u ∈ C.nodes ∨ u ∈ (node v c s).nodes → u ∈ (a i).nodes := fun u hu => by
    rw [L.tree]
    exact Ctx.mem_fill.2 hu
  refine h.refill L.tree (fun u hu => ?_) ?_ hds (fun u hu hus => ?_) (fun j hj u hu => ?_) ?_
    htree hroot ?_
  · have hu' := L.apart u hu
    simp only [nodes_node, List.mem_cons, List.mem_append, not_or] at hu'
    rw [hout u (by simp [hu'.1, hu'.2.1])]
    refine ⟨rfl, rfl, rfl, rfl, fun hp => ?_, fun hp => ?_⟩
    · have hcount := L.around.children hp
      simp only [relink, if_pos hp, length_node]
      omega
    · simp only [relink, if_neg hp]
  · refine L.linked.2.2.congr fun u hu => ?_
    rw [hout u, relink_of_notMem fun hC => L.apart u hC (by simp [hu])]
    simp only [nodes_node, nodes_nil, List.append_nil, List.mem_cons, not_or]
    exact ⟨ne_of_mem_of_not_mem hu hvs, fun huc => hcs u huc hu⟩
  · exact L.apart u hu (by simp [hus])
  · have hui : u ∉ (a i).nodes := h.apart j i hj u hu
    have hun : u ∉ (node v c s).nodes := fun hn => hui (hmem u (.inr hn))
    simp only [nodes_node, List.mem_cons, List.mem_append, not_or] at hun
    refine ⟨?_, hun.2.2⟩
    rw [hout u (by simp [hun.1, hun.2.1]), relink_of_notMem fun hC => hui (hmem u (.inl hC))]
  · cases hp : C.parent with
    | some w =>
      rw [Ctx.length_fill (u := node v c s) (.inl (by rw [hp]; rfl)), ← L.tree]
      exact h.rooted i
    | none =>
      have hlen := h.rooted i
      rw [L.tree, Ctx.length_fill_of_parent hp, length_node] at hlen
      rw [Ctx.length_fill_of_parent hp]
      omega
  · rw [nodes_node, List.length_cons, List.length_append]
    omega

/-- **The children taken from a node.** It no longer has a child nor counts one. -/
theorem Represents.empty (h : Represents m a) (L : Located m a i C v c s)
    (hv : m'.node v = { m.node v with pnodeChild := none, nodeChildren := 0 })
    (hout : ∀ u ≠ v, u ∉ c.nodes → m'.node u = m.node u)
    (hroot : (m'.tree i).root = (m.tree i).root)
    (hnum : (m'.tree i).nodesNum + c.nodes.length = (m.tree i).nodesNum)
    (htree : ∀ j ≠ i, m'.tree j = m.tree j) :
    Represents m' (Function.update a i (C.fill (.node v .nil s))) := by
  obtain ⟨⟨hvc, hvs⟩, hdc, hds, hcs⟩ := nodup_node.1 L.nodup
  have hmem : ∀ u, u ∈ (Ctx.down C v s).nodes ∨ u ∈ c.nodes → u ∈ (a i).nodes := fun u hu => by
    rw [L.tree]
    exact (Ctx.mem_fill (C := .down C v s)).2 hu
  refine h.refill_below (C := .down C v s) (t := c) (u := .nil) L.tree rfl (fun u hu => ?_) trivial
    List.nodup_nil (fun u _ => List.not_mem_nil) (fun j hj u hu => ⟨?_, List.not_mem_nil⟩) htree
    hroot (by simpa using hnum)
  · by_cases huv : u = v
    · rw [huv, hv]
      refine ⟨by simp [Ctx.cell], by simp [Ctx.cell], rfl, rfl, fun _ => ?_, fun hp => ?_⟩
      · simp only [length_nil, L.linked.1.children]
        omega
      · exact absurd rfl hp
    · have huc : u ∉ c.nodes := by
        simp only [Ctx.nodes, List.mem_cons, List.mem_append] at hu
        rcases hu with rfl | hu | hu
        · exact absurd rfl huv
        · exact fun huc => hcs u huc hu
        · exact fun huc => L.apart u hu (by simp [huc])
      have hvu : v ≠ u := Ne.symm huv
      rw [hout u huv huc]
      exact ⟨by simp [Ctx.cell], by simp [Ctx.cell, hvu], rfl, rfl, by simp [Ctx.parent, hvu],
        fun _ => rfl⟩
  · have hui : u ∉ (a i).nodes := h.apart j i hj u hu
    refine hout u (fun huv => hui (huv ▸ L.mem)) fun huc => hui (hmem u (.inr huc))

lemma relink_child {C : Ctx NodeId} (hc : C.cell = .child w) (x : Option NodeId) (f : ℕ → ℕ)
    (u : NodeId) (r : SimpleTreeNode) :
    relink C x f u r = if u = w then { r with pnodeChild := x, nodeChildren := f r.nodeChildren }
      else r := by
  cases C with
  | top => simp [Ctx.cell] at hc
  | right D y c => simp [Ctx.cell] at hc
  | down D y s =>
    obtain rfl := Cell.child.inj hc
    by_cases hu : u = y
    · simp [relink, Ctx.cell, Ctx.parent, hu]
    · simp [relink, Ctx.cell, Ctx.parent, hu, Ne.symm hu]

/-- The node before a place is not the parent. -/
lemma cell_ne_parent {C : Ctx NodeId} (hd : C.nodes.Nodup) (hs : C.cell = .sibling v)
    (hp : C.parent = some w) : v ≠ w := by
  cases C with
  | top => simp [Ctx.cell] at hs
  | down D y s => simp [Ctx.cell] at hs
  | right D y c =>
    obtain rfl := Cell.sibling.inj hs
    rintro rfl
    simp only [Ctx.nodes, List.nodup_cons, List.mem_append, not_or] at hd
    exact hd.1.2 (Ctx.parent_mem (C := D) hp)

lemma relink_sibling {C : Ctx NodeId} (hd : C.nodes.Nodup) (hs : C.cell = .sibling v)
    (hp : C.parent = some w) (x : Option NodeId) (f : ℕ → ℕ) (u : NodeId) (r : SimpleTreeNode) :
    relink C x f u r = if u = v then { r with pnodeSlibling := x }
      else if u = w then { r with nodeChildren := f r.nodeChildren } else r := by
  have hvw := cell_ne_parent hd hs hp
  by_cases hu : u = v
  · simp [relink, hs, hp, hu, Ne.symm hvw]
  · by_cases huw : u = w
    · simp [relink, hs, hp, huw, hvw, Ne.symm hvw]
    · simp [relink, hs, hp, hu, huw, Ne.symm hu, Ne.symm huw]

/-- Where a group goes that is hung in at a node, and what follows it there. -/
def slot (opt : TreeOpt) (C : Ctx NodeId) (v : NodeId) (c s : Forest NodeId) :
    Ctx NodeId × Forest NodeId :=
  match opt with
  | .insertBefore => (C, .node v c s)
  | .insertAfter => (.right C v c, s)
  | .addFirst => (.down C v s, c)
  | .addLast => ((Ctx.down C v s).past c, .nil)

lemma fill_slot (opt : TreeOpt) (C : Ctx NodeId) (v : NodeId) (c s : Forest NodeId) :
    (slot opt C v c s).1.fill (slot opt C v c s).2 = C.fill (.node v c s) := by
  cases opt with
  | addLast => rw [slot, Ctx.fill_past, append_nil]; rfl
  | _ => rfl

lemma Located.place (L : Located m a i C v c s) (opt : TreeOpt) (g : Forest NodeId) :
    place opt v g (a i) = (slot opt C v c s).1.fill (g.append (slot opt C v c s).2) := by
  rw [SimpleTrees.place, L.modifyAt]
  cases opt with
  | addLast => simp only [slot]; rw [Ctx.fill_past, append_nil]; rfl
  | _ => rfl

lemma Located.place_nil (L : Located m a i C v c s) (opt : TreeOpt) :
    SimpleTrees.place opt v .nil (a i) = a i := by
  rw [L.place, nil_append, fill_slot, L.tree]

lemma Located.nodup_slot (h : Represents m a) (L : Located m a i C v c s) (opt : TreeOpt) :
    (slot opt C v c s).1.nodes.Nodup := by
  have hd := h.nodup i
  rw [L.tree, ← fill_slot opt] at hd
  exact (Ctx.nodup_fill.1 hd).1

/-- How deep the parent of a slot is. -/
lemma Located.depth_slot (h : Represents m a) (L : Located m a i C v c s) (opt : TreeOpt)
    (hp : (slot opt C v c s).1.parent = some w) :
    (m.node w).nodeDepth + 1 = (slot opt C v c s).1.depth := by
  have hl := h.linked i
  rw [L.tree, ← fill_slot opt] at hl
  exact (linked_fill.1 hl).1.depth hp

/-- **A group hung in at a node.** -/
theorem Represents.hangAt (h : Represents m a) (L : Located m a i C v c s) (opt : TreeOpt)
    (hp : (slot opt C v c s).1.parent = some w) (hg : g ≠ nil) (hd : g.nodes.Nodup)
    (hfree : ∀ j, ∀ u ∈ (a j).nodes, u ∉ g.nodes)
    (hl : Linked m' (some w) (some (slot opt C v c s).1.depth) (slot opt C v c s).2.rootValue g)
    (hout : ∀ u ∉ g.nodes,
      m'.node u = relink (slot opt C v c s).1 g.rootValue (· + g.length) u (m.node u))
    (htree : m'.tree = fun j =>
      if j = i then { m.tree j with nodesNum := (m.tree j).nodesNum + g.nodes.length }
      else m.tree j) :
    Represents m' (Function.update a i (SimpleTrees.place opt v g (a i))) := by
  rw [L.place]
  exact h.hang (L.tree.trans (fill_slot opt C v c s).symm) hp hg hd hfree (hp ▸ hl) hout htree

/-- **A group cohered and hung in at a node.** The links to it and from its last node may be set
before it is cohered, or after. -/
theorem Represents.hangGroup (h : Represents m a) (L : Located m a i C v c s) (opt : TreeOpt)
    (hp : (slot opt C v c s).1.parent = some w) {l : NodeId} (hl : g.lastValue = some l)
    (hd : g.nodes.Nodup) (hfree : ∀ j, ∀ u ∈ (a j).nodes, u ∉ g.nodes) {q : Memory}
    (hg : Linked q (some w) none none g) (hdepth : (q.node w).nodeDepth = (m.node w).nodeDepth)
    (htree : q.tree = m.tree) (hn : g.nodes.length ≤ n) :
    ∃ m₅, cohereChild n q i g.rootValue = some m₅ ∧ (m₅.node l).pnodeSlibling = none ∧
      (∀ u ∉ g.nodes, m₅.node u = q.node u) ∧
      ∀ m₆ : Memory, m₆.tree = m₅.tree →
        m₆.node l = { m₅.node l with pnodeSlibling := (slot opt C v c s).2.rootValue } →
        (∀ u ∈ g.nodes, u ≠ l → m₆.node u = m₅.node u) →
        (∀ u ∉ g.nodes,
          m₆.node u = relink (slot opt C v c s).1 g.rootValue (· + g.length) u (m.node u)) →
        Represents m₆ (Function.update a i (SimpleTrees.place opt v g (a i))) := by
  have hwi : w ∈ (a i).nodes := by
    rw [L.tree, ← fill_slot opt, Ctx.mem_fill]
    exact .inl (Ctx.parent_mem hp)
  obtain ⟨m₅, hrun, h₅, hl₅⟩ := cohereChild_spec (n := n) hg hd (hfree i w hwi) hn i
  refine ⟨m₅, hrun, hl₅.last hl, h₅.out, fun m₆ htree₆ hl₆ hin hout => ?_⟩
  refine h.hangAt L opt hp ?_ hd hfree ?_ hout ?_
  · rintro rfl
    simp [lastValue] at hl
  · rw [hdepth, L.depth_slot h opt hp] at hl₅
    exact hl₅.setLast hl hd hl₆ hin
  · rw [htree₆, h₅.tree, htree]

/-- What the source does with a group from `x` to `l`, once it is cohered, to link it in beside
`dst` under `parent`. -/
def linkBeside (n : ℕ) (m : Memory) (opt : TreeOpt) (parent dst x l : NodeId) :
    Option (Memory × Bool) :=
  if opt = .insertBefore then (m.node parent).pnodeChild.bind fun temp =>
    if temp = dst then some ((m.setSlibling l (some temp)).setChild parent (some x), true)
    else (findPrev n m temp dst).bind fun temp =>
      some ((m.setSlibling temp (some x)).setSlibling l (some dst), true)
  else some ((m.setSlibling l (m.node dst).pnodeSlibling).setSlibling dst (some x), true)

theorem linkBeside_spec (h : Represents m a) (L : Located m a i C v c s)
    (hw : C.parent = some w) (hopt : opt = .insertBefore ∨ opt = .insertAfter) {x l : NodeId}
    (hx : g.rootValue = some x) (hl : g.lastValue = some l) (hd : g.nodes.Nodup)
    (hfree : ∀ j, ∀ u ∈ (a j).nodes, u ∉ g.nodes) {q : Memory}
    {y : Option NodeId} (hg : Linked q (some w) (some C.depth) y g)
    (hout : ∀ u ∉ g.nodes, q.node u = if u = w then
      { m.node u with nodeChildren := (m.node u).nodeChildren + g.length } else m.node u)
    (htree : q.tree = fun j =>
      if j = i then { m.tree j with nodesNum := (m.tree j).nodesNum + g.nodes.length }
      else m.tree j)
    (hn : C.nodes.length ≤ n) :
    ∃ m₆, linkBeside n q opt w v x l = some (m₆, true) ∧
      Represents m₆ (Function.update a i (SimpleTrees.place opt v g (a i))) := by
  have hg0 : g ≠ nil := by
    rintro rfl
    simp at hx
  have hlg := lastValue_mem hl
  have hvg : v ∉ g.nodes := hfree i v L.mem
  have hwi : w ∈ (a i).nodes := L.mem_of_around (Ctx.parent_mem hw)
  have hwg : w ∉ g.nodes := hfree i w hwi
  have hvw : v ≠ w := fun hvw => L.notMem (hvw ▸ Ctx.parent_mem hw)
  have hlw : l ≠ w := ne_of_mem_of_not_mem hlg hwg
  have hlv : l ≠ v := ne_of_mem_of_not_mem hlg hvg
  rcases hopt with rfl | rfl
  · have hslot : slot .insertBefore C v c s = (C, .node v c s) := rfl
    rcases L.around.link_cases (n := n) L.notMem hw hn with
      ⟨hcell, hchild⟩ | ⟨y, x₀, hcell, hyC, hchild, hx₀, hrun⟩
    · refine ⟨(q.setSlibling l (some v)).setChild w (some x), ?_, h.hangAt L .insertBefore hw hg0 hd
        hfree (hg.setLast hl hd ?_ fun u hu hul => ?_) (fun u hu => ?_) htree⟩
      · have hwchild : (q.node w).pnodeChild = some v := by
          rw [hout w hwg, if_pos rfl, hchild]
        rw [linkBeside, if_pos rfl, hwchild, Option.bind_some, if_pos rfl]
      · simp [hlw, slot]
      · simp [hul, ne_of_mem_of_not_mem hu hwg]
      · have hul : u ≠ l := fun hul => hu (hul ▸ hlg)
        rw [hslot, relink_child hcell, Memory.setChild, Memory.modify_node, Memory.setSlibling,
          Memory.modify_node, if_neg hul, hout u hu, hx]
        by_cases huw : u = w <;> simp [huw]
    · have hyw := cell_ne_parent L.nodupAround hcell hw
      have hyg : y ∉ g.nodes := hfree i y (L.mem_of_around hyC)
      have hly : l ≠ y := ne_of_mem_of_not_mem hlg hyg
      refine ⟨(q.setSlibling y (some x)).setSlibling l (some v), ?_, h.hangAt L .insertBefore hw hg0
        hd hfree (hg.setLast hl hd ?_ fun u hu hul => ?_) (fun u hu => ?_) htree⟩
      · have hwchild : (q.node w).pnodeChild = some x₀ := by
          rw [hout w hwg, if_pos rfl, hchild]
        rw [linkBeside, if_pos rfl, hwchild, Option.bind_some, if_neg hx₀,
          hrun q fun u hu => ?_, Option.bind_some]
        rw [hout u (hfree i u (L.mem_of_around hu))]
        by_cases huw : u = w <;> simp [huw]
      · simp [hly, slot]
      · simp [hul, ne_of_mem_of_not_mem hu hyg]
      · have hul : u ≠ l := fun hul => hu (hul ▸ hlg)
        rw [hslot, relink_sibling L.nodupAround hcell hw, Memory.setSlibling, Memory.modify_node,
          if_neg hul, Memory.setSlibling, Memory.modify_node, hout u hu, hx]
        by_cases huy : u = y
        · simp [huy, hyw]
        · by_cases huw : u = w <;> simp [huw, huy, Ne.symm hyw]
  · have hcell : (slot .insertAfter C v c s).1.cell = .sibling v := rfl
    refine ⟨(q.setSlibling l (q.node v).pnodeSlibling).setSlibling v (some x), ?_,
      h.hangAt L .insertAfter hw hg0 hd hfree (hg.setLast hl hd ?_ fun u hu hul => ?_)
        (fun u hu => ?_) htree⟩
    · rw [linkBeside, if_neg (by simp)]
    · have hnext : (q.node v).pnodeSlibling = s.rootValue := by
        rw [hout v hvg, if_neg hvw, L.linked.1.slibling, Option.or_none]
      simp [hlv, slot, hnext]
    · simp [hul, ne_of_mem_of_not_mem hu hvg]
    · have hul : u ≠ l := fun hul => hu (hul ▸ hlg)
      rw [relink_sibling (L.nodup_slot h _) hcell hw, Memory.setSlibling, Memory.modify_node,
        Memory.setSlibling, Memory.modify_node, if_neg hul, hout u hu, hx]
      by_cases huv : u = v
      · simp [huv, hvw]
      · by_cases huw : u = w <;> simp [huw, huv, Ne.symm hvw]

lemma setSlibling_self {l : NodeId} {x : Option NodeId} (h : (m.node l).pnodeSlibling = x) :
    m.setSlibling l x = m := by
  refine congrArg (Memory.mk · m.tree) (funext fun u => ?_)
  by_cases hu : u = l
  · simp [hu, ← h]
  · simp [hu]

section Below

variable {x l : NodeId} {y : Option NodeId} (h : Represents m a) (L : Located m a i C v c s)
  (hx : g.rootValue = some x) (hl : g.lastValue = some l) (hd : g.nodes.Nodup)
  (hfree : ∀ j, ∀ u ∈ (a j).nodes, u ∉ g.nodes) {q : Memory}
  (hg : Linked q (some v) (some (C.depth + 1)) y g)
  (hout : ∀ u ∉ g.nodes, q.node u = if u = v then
    { m.node u with nodeChildren := (m.node u).nodeChildren + g.length } else m.node u)
  (htree : q.tree = fun j =>
    if j = i then { m.tree j with nodesNum := (m.tree j).nodesNum + g.nodes.length }
    else m.tree j)

include h L hx hl hd hfree hg hout htree

/-- A cohered group linked in before the children of a node. -/
theorem linkFront (hopt : opt = .addFirst ∨ opt = .addLast ∧ c = .nil) :
    Represents ((q.setSlibling l c.rootValue).setChild v (some x))
      (Function.update a i (SimpleTrees.place opt v g (a i))) := by
  have hslot : slot opt C v c s = (.down C v s, c) := by
    rcases hopt with rfl | ⟨rfl, rfl⟩ <;> rfl
  have hlg := lastValue_mem hl
  have hvg : v ∉ g.nodes := hfree i v L.mem
  have hlv : l ≠ v := ne_of_mem_of_not_mem hlg hvg
  refine h.hangAt L opt (w := v) (by rw [hslot]; rfl) ?_ hd hfree ?_ (fun u hu => ?_) htree
  · rintro rfl
    simp at hx
  · rw [hslot]
    refine hg.setLast hl hd (by simp [hlv]) fun u hu hul => ?_
    simp [hul, ne_of_mem_of_not_mem hu hvg]
  · have hul : u ≠ l := fun hul => hu (hul ▸ hlg)
    rw [hslot, relink_child (w := v) rfl, Memory.setChild, Memory.modify_node, Memory.setSlibling,
      Memory.modify_node, if_neg hul, hout u hu, hx]
    by_cases huv : u = v <;> simp [huv]

/-- A cohered group linked in after the children of a node. -/
theorem linkBack {b : NodeId} (hb : c.lastValue = some b) :
    Represents ((q.setSlibling b (some x)).setSlibling l none)
      (Function.update a i (SimpleTrees.place .addLast v g (a i))) := by
  have hcell : (slot .addLast C v c s).1.cell = .sibling b := Ctx.cell_past _ hb
  have hp : (slot .addLast C v c s).1.parent = some v := Ctx.parent_past _ _
  have hbv := cell_ne_parent (L.nodup_slot h _) hcell hp
  have hlg := lastValue_mem hl
  have hbg : b ∉ g.nodes := by
    refine hfree i b ?_
    rw [L.tree, Ctx.mem_fill, nodes_node, List.mem_cons, List.mem_append]
    exact .inr (.inr (.inl (lastValue_mem hb)))
  have hlb : l ≠ b := ne_of_mem_of_not_mem hlg hbg
  refine h.hangAt L .addLast hp ?_ hd hfree ?_ (fun u hu => ?_) htree
  · rintro rfl
    simp at hx
  · have hdepth : (slot .addLast C v c s).1.depth = C.depth + 1 := Ctx.depth_past _ _
    rw [hdepth]
    refine hg.setLast hl hd (by simp [hlb, slot]) fun u hu hul => ?_
    simp [hul, ne_of_mem_of_not_mem hu hbg]
  · have hul : u ≠ l := fun hul => hu (hul ▸ hlg)
    rw [relink_sibling (L.nodup_slot h _) hcell hp, Memory.setSlibling, Memory.modify_node,
      if_neg hul, Memory.setSlibling, Memory.modify_node, hout u hu, hx]
    by_cases hub : u = b
    · simp [hub, hbv]
    · by_cases huv : u = v <;> simp [hub, huv, Ne.symm hbv]

omit h hx hl hd hg htree in
/-- The children of the node are still linked when the group is cohered. -/
lemma linked_children : (q.node v).pnodeChild = c.rootValue ∧
    Linked q (some v) (some (C.depth + 1)) none c := by
  have hvg : v ∉ g.nodes := hfree i v L.mem
  refine ⟨?_, L.linked.2.1.congr fun u hu => ?_⟩
  · rw [hout v hvg, if_pos rfl, L.linked.1.child]
  · have hug : u ∉ g.nodes := by
      refine hfree i u ?_
      rw [L.tree, Ctx.mem_fill, nodes_node, List.mem_cons, List.mem_append]
      exact .inr (.inr (.inl hu))
    rw [hout u hug, if_neg (ne_of_mem_of_not_mem hu (nodup_node.1 L.nodup).1.1)]

end Below

end SteepSystem.SimpleTrees
