import SteepSystem.SimpleTrees.Places

/-!
Nodes that come and go one by one: a root set, a node inserted beside another or added below it,
and a node destroyed with everything below it.
-/

namespace SteepSystem.SimpleTrees

open SteepSystem.Lib SteepSystem.Lib.Forest

variable {m m' : Memory} {a : Trees} {i j : TreeId} {C : Ctx NodeId} {v w base : NodeId}
  {c s t g : Forest NodeId} {n : ℕ} {opt : TreeOpt}

/-- A node in no tree becomes the root of an empty tree. -/
theorem setRoot_spec (h : Represents m a) (hv : ∀ j, v ∉ (a j).nodes) :
    Represents (simpleTreeSetRoot m i v)
      (if a i = .nil then Function.update a i (leaf v) else a) := by
  rw [simpleTreeSetRoot]
  by_cases ha : a i = .nil
  · have hroot : (m.tree i).root = none := by rw [h.root, ha]; rfl
    rw [if_neg (by simp [hroot]), if_pos ha]
    have hout : ∀ j, ∀ u ∈ (a j).nodes,
        (((m.set v ⟨none, none, none, 0, 0⟩).setRoot i (some v)).setNum i 1).node u = m.node u := by
      intro j u hu
      have huv : u ≠ v := fun huv => hv j (huv ▸ hu)
      simp [huv]
    refine h.refill (C := .top) (t := .nil) (u := leaf v) ha (by simp [Ctx.nodes]) ?_ (by simp [leaf])
      (by simp [Ctx.nodes]) (fun j hj u hu => ⟨hout j u hu, ?_⟩) (by simp [Ctx.fill, leaf])
      (fun j hj => by simp [hj]) (by simp [Ctx.fill, leaf]) ?_
    · refine ⟨⟨?_, ?_, ?_, ?_, ?_⟩, trivial, trivial⟩ <;> simp [Ctx.parent, Ctx.depth]
    · simp only [leaf, nodes_node, nodes_nil, List.append_nil, List.mem_singleton]
      rintro rfl
      exact hv j hu
    · have hnum : (m.tree i).nodesNum = 0 := by rw [h.nodesNum, ha]; rfl
      simp [leaf, hnum]
  · have hroot : (m.tree i).root ≠ none := by
      rw [h.root]
      cases hai : a i with
      | nil => exact absurd hai ha
      | node => simp
    rwa [if_pos hroot, if_neg ha]

/-- A node in no tree hung in at a node. -/
lemma Represents.hangLeaf (h : Represents m a) (L : Located m a i C base c s) (opt : TreeOpt)
    (hp : (slot opt C base c s).1.parent = some w) (hv : ∀ j, v ∉ (a j).nodes)
    (hvn : m'.node v = ⟨(slot opt C base c s).2.rootValue, none, some w,
      (slot opt C base c s).1.depth, 0⟩)
    (hout : ∀ u ≠ v, m'.node u = relink (slot opt C base c s).1 (some v) (· + 1) u (m.node u))
    (htree : m'.tree = (m.addNum i 1).tree) :
    Represents m' (Function.update a i (place opt base (leaf v) (a i))) := by
  refine h.hangAt L opt hp (by simp [leaf]) (by simp [leaf]) (fun j u hu => ?_) ?_
    (fun u hu => ?_) htree
  · simp only [leaf, nodes_node, nodes_nil, List.append_nil, List.mem_singleton]
    rintro rfl
    exact hv j hu
  · rw [leaf, Linked, hvn]
    refine ⟨⟨rfl, rfl, rfl, ?_, rfl⟩, trivial, trivial⟩
    rintro e ⟨⟩
    rfl
  · exact hout u fun huv => hu (by simp [leaf, huv])

theorem insertSlibling_spec (h : Represents m a) (hb : base ∈ (a i).nodes)
    (hr : (m.tree i).root ≠ some base) (hv : ∀ j, v ∉ (a j).nodes)
    (hopt : opt = .insertBefore ∨ opt = .insertAfter) (hn : (a i).nodes.length ≤ n) :
    ∃ m', simpleTreeInsertSlibling n m i base v opt = some (m', true) ∧
      Represents m' (Function.update a i (place opt base (leaf v) (a i))) := by
  obtain ⟨C, c, s, L⟩ := h.located hb
  obtain ⟨w, hw⟩ := L.exists_parent h hr
  have hbv : base ≠ v := fun hbv => hv i (hbv ▸ hb)
  have hwv : w ≠ v := fun hwv => hv i (hwv ▸ L.mem_of_around (Ctx.parent_mem hw))
  have hbw : base ≠ w := fun hbw => L.notMem (hbw ▸ Ctx.parent_mem hw)
  have hbase := L.linked.1
  rw [Option.or_none] at hbase
  have hdepth := hbase.depth _ rfl
  rcases hopt with rfl | rfl
  · rcases L.around.link_cases (n := n) L.notMem hw (by have := L.length_le; omega) with
      ⟨hcell, hchild⟩ | ⟨y, x₀, hcell, hyC, hchild, hx₀, hrun⟩
    · -- The first child: the parent is linked to the new node.
      apply Exists.intro
      apply And.intro
      · rw [simpleTreeInsertSlibling, if_neg (Ne.symm hr), if_neg (by simp), if_pos rfl,
          hbase.parent, hw]
        simp only [Option.bind_eq_bind, Option.bind_some, hchild, if_true]
        rfl
      refine h.hangLeaf L .insertBefore hw hv ?_ (fun u hu => ?_) rfl
      · simp [slot, hbw, Ne.symm hwv, hbase.parent, hw, hdepth]
      · rw [slot, relink_child hcell]
        by_cases huw : u = w <;> simp [hu, huw, hwv]
    · -- A later child: the sibling before it is linked to the new node.
      have hyv : y ≠ v := fun hyv => hv i (hyv ▸ L.mem_of_around hyC)
      have hyw := cell_ne_parent L.nodupAround hcell hw
      apply Exists.intro
      apply And.intro
      · rw [simpleTreeInsertSlibling, if_neg (Ne.symm hr), if_neg (by simp), if_pos rfl,
          hbase.parent, hw]
        simp only [Option.bind_eq_bind, Option.bind_some, hchild, if_neg hx₀]
        rw [hrun _ fun u hu => ?_]
        · rfl
        · have huv : u ≠ v := fun huv => hv i (huv ▸ L.mem_of_around hu)
          by_cases huw : u = w <;> simp [huv, huw, hwv]
      refine h.hangLeaf L .insertBefore hw hv ?_ (fun u hu => ?_) rfl
      · simp [slot, hbw, Ne.symm hyv, hbase.parent, hw, hdepth]
      · rw [slot, relink_sibling L.nodupAround hcell hw]
        by_cases huy : u = y
        · simp [huy, hyv, hyw]
        · by_cases huw : u = w <;> simp [hu, huw, huy, hwv, Ne.symm hyw]
  · have hcell : (slot .insertAfter C base c s).1.cell = .sibling base := rfl
    apply Exists.intro
    apply And.intro
    · rw [simpleTreeInsertSlibling, if_neg (Ne.symm hr), if_pos rfl]
      have hparent : (((m.set v ⟨(m.node base).pnodeSlibling, none, (m.node base).pnodeParent,
          (m.node base).nodeDepth, 0⟩).setSlibling base (some v)).node base).pnodeParent =
          some w := by
        simp [hbv, hbase.parent, hw]
      simp only [Option.bind_eq_bind, hparent, Option.bind_some]
      rfl
    refine h.hangLeaf L .insertAfter hw hv ?_ (fun u hu => ?_) rfl
    · simp [slot, Ne.symm hbv, Ne.symm hwv, hbase.slibling, hbase.parent, hw, hdepth, Ctx.depth]
    · rw [relink_sibling (L.nodup_slot h _) hcell hw]
      by_cases hub : u = base
      · simp [hub, hbv, hbw]
      · by_cases huw : u = w <;> simp [hu, huw, hub, hwv, Ne.symm hbw]

theorem addChild_spec (h : Represents m a) (hb : base ∈ (a i).nodes)
    (hv : ∀ j, v ∉ (a j).nodes) (hopt : opt = .addFirst ∨ opt = .addLast)
    (hn : (a i).nodes.length ≤ n) :
    ∃ m', simpleTreeAddChild n m i base v opt = some (m', true) ∧
      Represents m' (Function.update a i (place opt base (leaf v) (a i))) := by
  obtain ⟨C, c, s, L⟩ := h.located hb
  have hbv : base ≠ v := fun hbv => hv i (hbv ▸ hb)
  have hbase := L.linked.1
  have hdepth := hbase.depth _ rfl
  have hchild := hbase.child
  have hcount := hbase.children
  have hlen := L.length_le
  cases c with
  | nil =>
    have hslot : slot opt C base .nil s = (.down C base s, .nil) := by
      rcases hopt with rfl | rfl <;> rfl
    rw [length_nil] at hcount
    apply Exists.intro
    apply And.intro
    · rw [simpleTreeAddChild, if_pos hcount]
    refine h.hangLeaf L opt (by rw [hslot]; rfl) hv ?_ (fun u hu => ?_) rfl
    · simp [hslot, Ne.symm hbv, hdepth, Ctx.depth]
    · rw [hslot, relink_child (w := base) rfl]
      by_cases hub : u = base
      · simp [hub, hbv, hcount]
      · simp [hu, hub]
  | node temp c' s' =>
    have hne : (m.node base).nodeChildren ≠ 0 := by
      rw [hcount, length_node]
      omega
    rcases hopt with rfl | rfl
    · apply Exists.intro
      apply And.intro
      · rw [simpleTreeAddChild, if_neg hne, if_pos rfl]
      refine h.hangLeaf L .addFirst rfl hv ?_ (fun u hu => ?_) rfl
      · simp [slot, Ne.symm hbv, hdepth, Ctx.depth, hchild]
      · rw [slot, relink_child (w := base) rfl]
        by_cases hub : u = base
        · simp [hub, hbv]
        · simp [hu, hub]
    · -- The last child: the loop finds the sibling that is linked to the new node.
      obtain ⟨l, hl⟩ : ∃ l, (node temp c' s').lastValue = some l := by
        rw [lastValue]
        cases s'.lastValue <;> simp
      have hlv : l ≠ v := by
        rintro rfl
        refine hv i ?_
        rw [L.tree, Ctx.mem_fill]
        exact .inr (by rw [nodes_node, List.mem_cons, List.mem_append]; exact .inr (.inl (lastValue_mem hl)))
      have hcell : (slot .addLast C base (node temp c' s') s).1.cell = .sibling l :=
        Ctx.cell_past _ hl
      have hparent : (slot .addLast C base (node temp c' s') s).1.parent = some base :=
        Ctx.parent_past _ _
      have hlb := cell_ne_parent (L.nodup_slot h _) hcell hparent
      apply Exists.intro
      apply And.intro
      · rw [simpleTreeAddChild, if_neg hne, if_neg (by simp), if_pos rfl, hchild]
        simp only [Option.bind_eq_bind, rootValue_node, Option.bind_some]
        rw [findLast_eq L.linked.2.1 (by
          have := s'.length_le_nodes
          simp only [nodes_node, List.length_cons, List.length_append] at hlen
          omega), Option.bind_some]
        rw [lastValue] at hl
        rw [hl, Option.bind_some]
      refine h.hangLeaf L .addLast hparent hv ?_ (fun u hu => ?_) rfl
      · simp [slot, Ctx.depth_past, Ne.symm hbv, Ne.symm hlv, hdepth, Ctx.depth]
      · rw [relink_sibling (L.nodup_slot h _) hcell hparent]
        by_cases hul : u = l
        · simp [hul, hlv, hlb]
        · by_cases hub : u = base <;> simp [hu, hul, hub, hbv, Ne.symm hlb]

/-- **A node destroyed.** It goes with everything below it; each of these nodes is handed to
`del_func` once, the ones below first. -/
theorem destroyNode_spec (h : Represents m a) (hv : v ∈ (a i).nodes)
    (hn : (a i).nodes.length ≤ n) :
    ∃ m', simpleTreeDestroyNode n m i v =
        some (m', ((a i).childrenAt (here v)).postorder ++ [v]) ∧
      Represents m' (Function.update a i ((a i).remove (here v))) := by
  obtain ⟨C, c, s, L⟩ := h.located hv
  rw [L.childrenAt, L.remove]
  obtain ⟨⟨hvc, hvs⟩, hdc, hds, hcs⟩ := nodup_node.1 L.nodup
  have hlen := L.length_le
  have hnode := L.linked.1
  rw [Option.or_none] at hnode
  obtain ⟨m₁, hrun₁, hout₁, htree₁⟩ := destroyChild_spec (n := n) L.linked.2.1 hdc (by omega) i
  have hcount : (m.tree i).nodesNum = (a i).nodes.length := h.nodesNum i
  have hroot₁ : (m₁.tree i).root = (m.tree i).root := by simp [htree₁]
  by_cases hr : (m.tree i).root = some v
  · obtain ⟨rfl, rfl⟩ := L.eq_top h hr
    apply Exists.intro
    apply And.intro
    · rw [simpleTreeDestroyNode, hnode.child, hrun₁, Option.bind_eq_bind, Option.bind_some]
      dsimp only
      rw [hroot₁, if_pos hr.symm]
    refine h.cut L (fun u hu => ?_) (by simp [Ctx.fill]) ?_ (fun j hj => by simp [hj, htree₁])
    · simp only [nodes_node, nodes_nil, List.append_nil, List.mem_cons, not_or] at hu
      simp [relink, Ctx.cell, Ctx.parent, hu.1, hout₁ u hu.2]
    · simp only [Memory.setRoot, Memory.subNum, Memory.setChildren, Memory.setChild,
        Memory.modifyTree_tree, Memory.modify_tree, htree₁, if_pos]
      rw [nodes_nil, List.length_nil] at hlen
      omega
  · obtain ⟨w, hw⟩ := L.exists_parent h hr
    have hwv : w ≠ v := fun hwv => L.notMem (hwv ▸ Ctx.parent_mem hw)
    have hC : ∀ u ∈ C.nodes, m₁.node u = m.node u := fun u hu =>
      hout₁ u fun huc => L.apart u hu (by simp [huc])
    have hnode₁ : m₁.node v = m.node v := hout₁ v hvc
    have hw₁ : m₁.node w = m.node w := hC w (Ctx.parent_mem hw)
    have hnum : ∀ m' : Memory, m'.tree = (m₁.subNum i 1).tree →
        (m'.tree i).nodesNum + (c.nodes.length + 1) = (m.tree i).nodesNum := by
      intro m' hm'
      rw [hm']
      simp only [Memory.subNum, Memory.modifyTree_tree, htree₁, if_pos]
      omega
    have hroots : (m.tree i).root = (C.fill s).rootValue := by
      rw [h.root, L.tree]
      exact Ctx.rootValue_fill (.inl (by rw [hw]; rfl))
    have hk := L.around.children hw
    rcases L.around.link_cases (n := n) L.notMem hw (by omega) with
      ⟨hcell, hchild⟩ | ⟨y, x₀, hcell, hyC, hchild, hx₀, hrun⟩
    · -- The first child: the parent is linked past it.
      have hnext : (if (m.node w).nodeChildren = 1 then none else s.rootValue) = s.rootValue := by
        rw [hk, Ctx.before_of_child hcell]
        cases s <;> simp
      apply Exists.intro
      apply And.intro
      · rw [simpleTreeDestroyNode, hnode.child, hrun₁, Option.bind_eq_bind, Option.bind_some]
        dsimp only
        rw [hroot₁, if_neg (Ne.symm hr), hnode₁, hnode.parent, hw, Option.bind_eq_bind,
          Option.bind_some, hw₁, hchild, Option.bind_some, if_pos rfl, hnode.slibling, hnext]
      refine h.cut L (fun u hu => ?_) ?_ (hnum _ rfl) (fun j hj => by simp [hj, htree₁])
      · simp only [nodes_node, nodes_nil, List.append_nil, List.mem_cons, not_or] at hu
        rw [relink_child hcell, ← hout₁ u hu.2]
        by_cases huw : u = w <;> simp [hu.1, huw, hwv]
      · simp [hroot₁, hroots]
    · -- A later child: the sibling before it is linked past it.
      have hyw := cell_ne_parent L.nodupAround hcell hw
      have hyv : y ≠ v := fun hyv => L.notMem (hyv ▸ hyC)
      apply Exists.intro
      apply And.intro
      · rw [simpleTreeDestroyNode, hnode.child, hrun₁, Option.bind_eq_bind, Option.bind_some]
        dsimp only
        rw [hroot₁, if_neg (Ne.symm hr), hnode₁, hnode.parent, hw, Option.bind_eq_bind,
          Option.bind_some, hw₁, hchild, Option.bind_some, if_neg hx₀,
          hrun m₁ fun u hu => by rw [hC u hu], Option.bind_some]
      refine h.cut L (fun u hu => ?_) ?_ (hnum _ rfl) (fun j hj => by simp [hj, htree₁])
      · simp only [nodes_node, nodes_nil, List.append_nil, List.mem_cons, not_or] at hu
        rw [relink_sibling L.nodupAround hcell hw, ← hout₁ u hu.2]
        by_cases huy : u = y
        · simp [huy, hyv, hyw, Ne.symm hwv, hnode₁, hnode.slibling]
        · by_cases huw : u = w <;> simp [hu.1, huw, huy, hwv, Ne.symm hyw]
      · simp [hroot₁, hroots]

end SteepSystem.SimpleTrees
