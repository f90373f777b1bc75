import SteepSystem.SimpleTrees.Move

/-!
Nodes and children copied, and whole trees duplicated. The copy has the shape of its source and
the nodes that `dup_func` hands out, in preorder; it is hung in like a moved group.
-/

namespace SteepSystem.SimpleTrees

open SteepSystem.Lib SteepSystem.Lib.Forest

variable {m m' : Memory} {a : Trees} {i j : TreeId} {C : Ctx NodeId} {v w : NodeId}
  {c s t g : Forest NodeId} {n : ℕ} {opt : TreeOpt} {p next : Option NodeId} {d : Option ℕ}

/-- The copy of a group under the nodes that are handed out for it. -/
def copyOf (t : Forest NodeId) (made : List Dup) : Forest NodeId :=
  (t.relabel (made.map Prod.fst)).1

/-- What `dup_func` may hand out for a group: a node for each of its nodes, all different, in no
tree and with no child link. -/
structure Fresh (a : Trees) (t : Forest NodeId) (made : List Dup) : Prop where
  length : made.length = t.nodes.length
  nodup : (made.map Prod.fst).Nodup
  free : ∀ j, ∀ u ∈ (a j).nodes, u ∉ made.map Prod.fst
  clean : ∀ x ∈ made, x.2.pnodeChild = none

namespace Fresh

variable {made : List Dup}

lemma nodes_copyOf (F : Fresh a t made) : (copyOf t made).nodes = made.map Prod.fst :=
  nodes_relabel t (by rw [List.length_map, F.length])

lemma length_copyOf (F : Fresh a t made) : (copyOf t made).length = t.length :=
  length_relabel t (by rw [List.length_map, F.length])

lemma rootValue_copyOf (F : Fresh a t made) (ht : t ≠ .nil) :
    ∃ x, (copyOf t made).rootValue = some x := by
  have hlen := F.length_copyOf
  cases hc : copyOf t made with
  | nil =>
    rw [hc] at hlen
    cases t with
    | nil => exact absurd rfl ht
    | node => simp at hlen
  | node x c s => exact ⟨x, rfl⟩

/-- What is handed out for a node and its children: one for it, then those for the children. -/
lemma cons (F : Fresh a (.node v c .nil) made) : ∃ x r mc, made = (x, r) :: mc ∧
    Fresh a c mc ∧ x ∉ mc.map Prod.fst ∧ (∀ j, x ∉ (a j).nodes) ∧
      copyOf (.node v c .nil) made = .node x (copyOf c mc) .nil := by
  obtain ⟨hlen, hd, hfree, hclean⟩ := F
  cases made with
  | nil => simp at hlen
  | cons y mc =>
    obtain ⟨x, r⟩ := y
    simp only [nodes_node, nodes_nil, List.append_nil, List.length_cons] at hlen
    rw [List.map_cons, List.nodup_cons] at hd
    rw [List.forall_mem_cons] at hclean
    have hmc : mc.length = c.nodes.length := by omega
    refine ⟨x, r, mc, rfl, ⟨hmc, hd.2, fun j u hu hum => hfree j u hu (by simp [hum]), hclean.2⟩,
      hd.1, fun j hxj => hfree j x hxj (by simp), ?_⟩
    have hnode := relabel_node v (s := .nil) x (l := mc.map Prod.fst) (k := [])
      (by rw [List.length_map, hmc])
    rw [List.append_nil] at hnode
    rw [copyOf, List.map_cons, hnode]
    rfl

end Fresh

/-- A group that may be empty, duplicated. -/
lemma dupChild_spec {made : List Dup} (F : Fresh a t made) (h : Linked m p d none t)
    (hti : ∀ u ∈ t.nodes, u ∈ (a i).nodes) (hn : t.nodes.length ≤ n)
    (rest : List (Option Dup)) (q : NodeId) :
    ∃ m', dupChild n m (made.map some ++ rest) q t.rootValue =
        some (m', (copyOf t made).rootValue) ∧
      Linked m' (some q) none none (copyOf t made) ∧ m'.tree = m.tree ∧
      ∀ u ∉ made.map Prod.fst, m'.node u = m.node u := by
  cases t with
  | nil => exact ⟨m, rfl, trivial, rfl, fun _ _ => rfl⟩
  | node v c s =>
    obtain ⟨m', hrun, hl, htree, hout, -⟩ := dupLoop_spec (n := n) h rfl F.length F.nodup
      (fun x hx hxt => F.free i x (hti x hxt) hx) F.clean hn rest q none none (by simp)
    refine ⟨m', ?_, hl, htree, fun u hu => hout u hu (by simp)⟩
    rw [rootValue_node, dupChild, simpleTreeDupGroup, hrun]
    rfl

/-- The nodes of a group that may be empty under their parent. -/
lemma setChildParents_spec (h : Linked m p d none t) (hd : t.nodes.Nodup)
    (hn : t.nodes.length ≤ n) (q : NodeId) :
    ∃ m', setChildParents n m q t.rootValue = some m' ∧ Linked m' (some q) d none t ∧
      m'.tree = m.tree ∧ ∀ u ∉ t.nodes, m'.node u = m.node u := by
  cases t with
  | nil => exact ⟨m, rfl, trivial, rfl, fun _ _ => rfl⟩
  | node v c s =>
    obtain ⟨m', l, hrun, -, hl, htree, hout⟩ := setParents_spec (n := n) h hd (by
      have := s.length_le_nodes
      rw [nodes_node, List.length_cons, List.length_append] at hn
      omega) (some q)
    refine ⟨m', ?_, hl, htree, hout⟩
    rw [rootValue_node, setChildParents, hrun]
    rfl

/-- What a copied node is before it is linked in: under its new parent `q`, with the copies of the
children below it, and counted. -/
lemma copyNode_spec {q x : NodeId} {k : TreeId} {e : ℕ} {b : Memory}
    (hd : (node x t .nil).nodes.Nodup)
    (hparent : (b.node x).pnodeParent = some q) (hdepth : (b.node x).nodeDepth = e)
    (hchild : (b.node x).pnodeChild = t.rootValue)
    (hchildren : (b.node x).nodeChildren = t.length) (hl : Linked b (some x) none none t)
    (hn : t.nodes.length ≤ n) :
    ∃ m₅, cohereChild n b k t.rootValue = some m₅ ∧
      Linked m₅ (some q) (some e) (b.node x).pnodeSlibling (.node x t .nil) ∧
      (∀ u ∉ t.nodes, m₅.node u = b.node u) ∧ m₅.tree = fun j => if j = k then
        { b.tree j with nodesNum := (b.tree j).nodesNum + t.nodes.length } else b.tree j := by
  obtain ⟨⟨hxt, -⟩, hdt, -⟩ := nodup_node.1 hd
  obtain ⟨m₅, hrun, h₅, hl₅⟩ := cohereChild_spec (n := n) hl hdt hxt hn k
  refine ⟨m₅, hrun, ⟨?_, ?_, trivial⟩, h₅.out, h₅.tree⟩
  · rw [h₅.out x hxt]
    refine ⟨rfl, hchild, hparent, ?_, hchildren⟩
    rintro e' ⟨⟩
    exact hdepth
  · rw [hdepth] at hl₅
    exact hl₅

/-- A node and the group `t` of its children, duplicated: `x` and the group `g` below it. -/
structure Duplicated (m m' : Memory) (a : Trees) (x : NodeId) (t g : Forest NodeId) : Prop where
  nodup : (node x g .nil).nodes.Nodup
  free : ∀ j, ∀ u ∈ (a j).nodes, u ∉ (node x g .nil).nodes
  linked : Linked m' (some x) none none g
  tree : m'.tree = m.tree
  out : ∀ u ∉ (node x g .nil).nodes, m'.node u = m.node u
  length_nodes : g.nodes.length = t.nodes.length
  length : g.length = t.length

/-- The copies of the children come first, under the new node. -/
lemma Fresh.dupNode {src : NodeId} {made : List Dup} (F : Fresh a (.node src t .nil) made)
    (L : Located m a i C src t s) (hn : t.nodes.length ≤ n) (rest : List (Option Dup)) :
    ∃ x r mc m', made = (x, r) :: mc ∧
      copyOf (.node src t .nil) made = .node x (copyOf t mc) .nil ∧
      dupChild n (m.set x r) (mc.map some ++ rest) x ((m.set x r).node src).pnodeChild =
        some (m', (copyOf t mc).rootValue) ∧ Duplicated m m' a x t (copyOf t mc) := by
  have hg := F.nodes_copyOf
  have hd := F.nodup
  have hfree := F.free
  obtain ⟨x, r, mc, rfl, Fc, hxmc, hxa, hcopy⟩ := F.cons
  rw [hcopy] at hg
  rw [← hg] at hd hfree
  have hT := Fc.nodes_copyOf
  have hti : ∀ u ∈ t.nodes, u ∈ (a i).nodes := fun u hu => by
    rw [L.tree, Ctx.mem_fill]
    exact .inr (by simp [hu])
  have hsx : src ≠ x := by
    rintro rfl
    exact hxa i (by rw [L.tree, Ctx.mem_fill]; exact .inr (by simp))
  obtain ⟨m', hrun, hl, htree, hout⟩ := dupChild_spec (n := n) (m := m.set x r) Fc
    (L.linked.2.1.congr fun u hu => by
      simp [show u ≠ x from fun hux => hxa i (hux ▸ hti u hu)]) hti hn rest x
  have hsrc : ((m.set x r).node src).pnodeChild = t.rootValue := by
    simp [hsx, L.linked.1.child]
  refine ⟨x, r, mc, m', rfl, hcopy, by rw [hsrc, hrun], hd, hfree, hl, htree, ?_, ?_,
    Fc.length_copyOf⟩
  · intro u hu
    simp only [nodes_node, nodes_nil, List.append_nil, List.mem_cons, not_or, hT] at hu
    rw [hout u hu.2]
    simp [hu.1]
  · rw [hT, List.length_map, Fc.length]

theorem copyNodeToChild_spec {td ts : TreeId} {dst src : NodeId} {made : List Dup}
    {rest : List (Option Dup)} (h : Represents m a) (hdst : dst ∈ (a td).nodes)
    (hsrc : src ∈ (a ts).nodes) (hopt : opt = .addFirst ∨ opt = .addLast)
    (F : Fresh a (.node src ((a ts).childrenAt (here src)) .nil) made)
    (hlast : opt = .addLast → ((a td).childrenAt (here dst)).length ≠ 1)
    (hn : (a td).nodes.length + (a ts).nodes.length < n) :
    ∃ m', simpleTreeCopyNodeToChild n m td dst src opt (made.map some ++ rest) = some (m', true) ∧
      Represents m' (Function.update a td (place opt dst
        (copyOf (.node src ((a ts).childrenAt (here src)) .nil) made) (a td))) := by
  have hguard : ¬ (opt ≠ .addFirst ∧ opt ≠ .addLast) := by
    rcases hopt with rfl | rfl <;> simp
  obtain ⟨C', t, s', L'⟩ := h.located hsrc
  rw [L'.childrenAt] at F ⊢
  have hlen' := L'.length_le
  obtain ⟨x, r, mc, m₂, rfl, hcopy, hrun₂, D⟩ := F.dupNode L' (by omega : _ ≤ n) rest
  rw [hcopy]
  have hdx : dst ≠ x := fun hdx => D.free td dst hdst (by simp [hdx])
  have hsx : src ≠ x := fun hsx => D.free ts src hsrc (by simp [hsx])
  have hxT := (nodup_node.1 D.nodup).1.1
  have hd₂ : m₂.node dst = m.node dst := D.out dst (D.free td dst hdst)
  have hs₂ : m₂.node src = m.node src := D.out src (D.free ts src hsrc)
  obtain ⟨C, c, s, L⟩ := h.located hdst
  have hlen := L.length_le
  have hnode := L.linked.1
  have hdg : dst ∉ (copyOf t mc).nodes := fun hdg => D.free td dst hdst (by simp [hdg])
  set m₃ := (((m₂.setDepth x ((m₂.node dst).nodeDepth + 1)).setChild x
    (copyOf t mc).rootValue).setChildren x ((((m₂.setDepth x ((m₂.node dst).nodeDepth + 1)).setChild
      x (copyOf t mc).rootValue).node src).nodeChildren)).setParent x (some dst) with hm₃
  have hTlen := D.length_nodes
  obtain ⟨m₄, hrun₄, hl₄, htree₄, hout₄⟩ := setChildParents_spec (n := n) (m := m₃)
    (D.linked.congr fun u hu => by simp [hm₃, ne_of_mem_of_not_mem hu hxT])
    (nodup_node.1 D.nodup).2.1 (by omega) x
  have hx₄ : m₄.node x = m₃.node x := hout₄ x hxT
  obtain ⟨m₅, hrun₅, hl₅, hout₅, htree₅⟩ := copyNode_spec (n := n) (k := td)
    (b := (m₄.addNum td 1).addChildren dst 1) (q := dst) (e := C.depth + 1) D.nodup
    (by simp [Ne.symm hdx, hx₄, hm₃])
    (by simp [Ne.symm hdx, hx₄, hm₃, hd₂, hnode.depth])
    (by simp [Ne.symm hdx, hx₄, hm₃])
    (by simp [Ne.symm hdx, hx₄, hm₃, hsx, hs₂, L'.linked.1.children, D.length])
    (hl₄.congr fun u hu => by simp [ne_of_mem_of_not_mem hu hdg]) (by omega)
  have hout : ∀ u ∉ (node x (copyOf t mc) .nil).nodes, m₅.node u = if u = dst then
      { m.node u with nodeChildren := (m.node u).nodeChildren +
        (node x (copyOf t mc) .nil).length } else m.node u := by
    intro u hu
    have hu' := hu
    simp only [nodes_node, nodes_nil, List.append_nil, List.mem_cons, not_or] at hu
    rw [hout₅ u hu.2, Memory.addChildren, Memory.modify_node, Memory.addNum,
      Memory.modifyTree_node, hout₄ u hu.2]
    have : m₃.node u = m.node u := by simp [hm₃, hu.1, D.out u hu']
    rw [this]
    rfl
  have htree : m₅.tree = fun j => if j = td then { m.tree j with nodesNum :=
      (m.tree j).nodesNum + (node x (copyOf t mc) .nil).nodes.length } else m.tree j := by
    rw [htree₅]
    funext j
    by_cases hj : j = td
    · simp [hj, htree₄, hm₃, D.tree]
      omega
    · simp [hj, htree₄, hm₃, D.tree]
  have hrun : simpleTreeCopyNodeToChild n m td dst src opt
      (((x, r) :: mc).map some ++ rest) = (m₅.node dst).pnodeChild.elim
        (some ((m₅.setSlibling x none).setChild dst (some x), true))
        fun temp => if opt = .addFirst then
            some ((m₅.setSlibling x (some temp)).setChild dst (some x), true)
          else (findLast n m₅ temp none).bind fun last => last.bind fun last =>
            some ((m₅.setSlibling last (some x)).setSlibling x none, true) := by
    have hdups : ((x, r) :: mc).map some ++ rest = some (x, r) :: (mc.map some ++ rest) := rfl
    rw [hdups, simpleTreeCopyNodeToChild, if_neg hguard]
    dsimp only
    rw [hrun₂, Option.bind_eq_bind, Option.bind_some]
    dsimp only
    rw [← hm₃, hrun₄, Option.bind_eq_bind, Option.bind_some, hrun₅, Option.bind_some]
    cases (m₅.node dst).pnodeChild <;> rfl
  have hgx : (node x (copyOf t mc) .nil).rootValue = some x := rfl
  have hgl : (node x (copyOf t mc) .nil).lastValue = some x := rfl
  obtain ⟨hchild₅, hc₅⟩ := linked_children L D.free hout
  rw [hrun, hchild₅]
  cases c with
  | nil =>
    refine ⟨_, rfl, linkFront h L hgx hgl D.nodup D.free hl₅ hout htree ?_⟩
    exact hopt.imp_right fun h => ⟨h, rfl⟩
  | node temp c' s₁ =>
    rcases hopt with rfl | rfl
    · exact ⟨_, rfl, linkFront h L hgx hgl D.nodup D.free hl₅ hout htree (.inl rfl)⟩
    · obtain ⟨b, hb⟩ := exists_lastValue (t := node temp c' s₁) (by simp)
      have hs₁ : s₁ ≠ .nil := by
        rintro rfl
        exact hlast rfl (by rw [L.childrenAt]; rfl)
      refine ⟨_, ?_, linkBack h L hgx hgl D.nodup D.free hl₅ hout htree hb⟩
      simp only [rootValue_node, Option.elim_some, reduceCtorEq, if_false]
      rw [findLast_eq hc₅, lastValue_node hb hs₁]
      · rfl
      · have := s₁.length_le_nodes
        rw [nodes_node, List.length_cons, List.length_append] at hlen
        omega

theorem copyNodeToSlibling_spec {td ts : TreeId} {dst src : NodeId} {made : List Dup}
    {rest : List (Option Dup)} (h : Represents m a) (hdst : dst ∈ (a td).nodes)
    (hsrc : src ∈ (a ts).nodes) (hr : (m.tree td).root ≠ some dst)
    (hopt : opt = .insertBefore ∨ opt = .insertAfter)
    (F : Fresh a (.node src ((a ts).childrenAt (here src)) .nil) made)
    (hn : (a td).nodes.length + (a ts).nodes.length < n) :
    ∃ m', simpleTreeCopyNodeToSlibling n m td dst src opt (made.map some ++ rest) =
        some (m', true) ∧
      Represents m' (Function.update a td (place opt dst
        (copyOf (.node src ((a ts).childrenAt (here src)) .nil) made) (a td))) := by
  have hguard : ¬ (opt ≠ .insertBefore ∧ opt ≠ .insertAfter) := by
    rcases hopt with rfl | rfl <;> simp
  obtain ⟨C', t, s', L'⟩ := h.located hsrc
  rw [L'.childrenAt] at F ⊢
  have hlen' := L'.length_le
  obtain ⟨x, r, mc, m₂, rfl, hcopy, hrun₂, D⟩ := F.dupNode L' (by omega : _ ≤ n) rest
  rw [hcopy]
  have hdx : dst ≠ x := fun hdx => D.free td dst hdst (by simp [hdx])
  have hsx : src ≠ x := fun hsx => D.free ts src hsrc (by simp [hsx])
  have hxT := (nodup_node.1 D.nodup).1.1
  have hd₂ : m₂.node dst = m.node dst := D.out dst (D.free td dst hdst)
  have hs₂ : m₂.node src = m.node src := D.out src (D.free ts src hsrc)
  obtain ⟨C, c, s, L⟩ := h.located hdst
  obtain ⟨w, hw⟩ := L.exists_parent h hr
  have hlen := L.length_le
  have hnode := L.linked.1
  have hwi : w ∈ (a td).nodes := L.mem_of_around (Ctx.parent_mem hw)
  have hwx : w ≠ x := fun hwx => D.free td w hwi (by simp [hwx])
  have hwg : w ∉ (copyOf t mc).nodes := fun hwg => D.free td w hwi (by simp [hwg])
  set m₃ := (((m₂.setDepth x (m₂.node dst).nodeDepth).setChild x
    (copyOf t mc).rootValue).setChildren x ((((m₂.setDepth x (m₂.node dst).nodeDepth).setChild
      x (copyOf t mc).rootValue).node src).nodeChildren)) with hm₃
  have hTlen := D.length_nodes
  obtain ⟨m₄, hrun₄, hl₄, htree₄, hout₄⟩ := setChildParents_spec (n := n)
    (m := (m₃.setParent x (some w)).addChildren w 1)
    (D.linked.congr fun u hu => by
      simp [hm₃, ne_of_mem_of_not_mem hu hxT, ne_of_mem_of_not_mem hu hwg])
    (nodup_node.1 D.nodup).2.1 (by omega) x
  have hx₄ := hout₄ x hxT
  obtain ⟨m₅, hrun₅, hl₅, hout₅, htree₅⟩ := copyNode_spec (n := n) (k := td)
    (b := m₄.addNum td 1) (q := w) (e := C.depth) D.nodup
    (by simp [Ne.symm hwx, hx₄, hm₃])
    (by simp [Ne.symm hwx, hx₄, hm₃, hd₂, hnode.depth])
    (by simp [Ne.symm hwx, hx₄, hm₃])
    (by simp [Ne.symm hwx, hx₄, hm₃, hsx, hs₂, L'.linked.1.children, D.length])
    (hl₄.congr fun u _ => rfl) (by omega)
  have hout : ∀ u ∉ (node x (copyOf t mc) .nil).nodes, m₅.node u = if u = w then
      { m.node u with nodeChildren := (m.node u).nodeChildren +
        (node x (copyOf t mc) .nil).length } else m.node u := by
    intro u hu
    have hu' := hu
    simp only [nodes_node, nodes_nil, List.append_nil, List.mem_cons, not_or] at hu
    rw [hout₅ u hu.2, Memory.addNum, Memory.modifyTree_node, hout₄ u hu.2, Memory.addChildren,
      Memory.modify_node]
    have : (m₃.setParent x (some w)).node u = m.node u := by simp [hm₃, hu.1, D.out u hu']
    rw [this]
    rfl
  have htree : m₅.tree = fun j => if j = td then { m.tree j with nodesNum :=
      (m.tree j).nodesNum + (node x (copyOf t mc) .nil).nodes.length } else m.tree j := by
    rw [htree₅]
    funext j
    by_cases hj : j = td
    · simp [hj, htree₄, hm₃, D.tree]
      omega
    · simp [hj, htree₄, hm₃, D.tree]
  obtain ⟨m₆, hrun₆, hrep⟩ := linkBeside_spec (n := n) h L hw hopt (x := x) (l := x) rfl rfl D.nodup
    D.free hl₅ hout htree (by omega)
  refine ⟨m₆, ?_, hrep⟩
  have hparent : (m₃.node dst).pnodeParent = some w := by
    simp [hm₃, hdx, hd₂, hnode.parent, hw]
  have hdups : ((x, r) :: mc).map some ++ rest = some (x, r) :: (mc.map some ++ rest) := rfl
  rw [hdups, simpleTreeCopyNodeToSlibling, if_neg hguard, if_neg (Ne.symm hr)]
  dsimp only
  rw [hrun₂, Option.bind_eq_bind, Option.bind_some]
  dsimp only
  rw [← hm₃, hparent, Option.bind_eq_bind, Option.bind_some, hrun₄, Option.bind_eq_bind,
    Option.bind_some, hrun₅, Option.bind_some, ← hrun₆, linkBeside]
  -- In the first place the new node is linked to `pnode_dst`, which is the first child there.
  refine if_congr Iff.rfl (congrArg _ (funext fun temp => ?_)) rfl
  by_cases htemp : temp = dst
  · rw [if_pos htemp, if_pos htemp, htemp]
  · rw [if_neg htemp, if_neg htemp]

/-- A group with a node in it, duplicated. -/
lemma dupGroup_spec {made : List Dup} {x : NodeId} (F : Fresh a t made) (h : Linked m p d none t)
    (hx : t.rootValue = some x) (hti : ∀ u ∈ t.nodes, u ∈ (a i).nodes) (hn : t.nodes.length ≤ n)
    (rest : List (Option Dup)) (q : NodeId) :
    ∃ m' y, simpleTreeDupGroup n m (made.map some ++ rest) x q = some (m', rest, some y) ∧
      (copyOf t made).rootValue = some y ∧ Linked m' (some q) none none (copyOf t made) ∧
      m'.tree = m.tree ∧ ∀ u ∉ made.map Prod.fst, m'.node u = m.node u := by
  obtain ⟨y, hy⟩ := F.rootValue_copyOf (by rintro rfl; simp at hx)
  obtain ⟨m', hrun, hl, htree, hout, -⟩ := dupLoop_spec (n := n) h hx F.length F.nodup
    (fun x hx hxt => F.free i x (hti x hxt) hx) F.clean hn rest q none none (by simp)
  refine ⟨m', y, ?_, hy, hl, htree, fun u hu => hout u hu (by simp)⟩
  rw [simpleTreeDupGroup, hrun, if_pos rfl]
  exact congrArg (fun o => some (m', rest, o)) hy

theorem copyChildrenToChild_spec {td ts : TreeId} {dst src : NodeId} {made : List Dup}
    {rest : List (Option Dup)} (h : Represents m a) (hdst : dst ∈ (a td).nodes)
    (hsrc : src ∈ (a ts).nodes) (hopt : opt = .addFirst ∨ opt = .addLast)
    (F : Fresh a ((a ts).childrenAt (here src)) made)
    (hlast : opt = .addLast → (a ts).childrenAt (here src) ≠ .nil →
      ((a td).childrenAt (here dst)).length ≠ 1)
    (hfirst : opt = .addFirst → (a td).childrenAt (here dst) ≠ .nil →
      ((a ts).childrenAt (here src)).length ≠ 1)
    (hn : (a td).nodes.length + (a ts).nodes.length < n) :
    ∃ m', simpleTreeCopyChildrenToChild n m td dst src opt (made.map some ++ rest) =
        some (m', true) ∧
      Represents m' (Function.update a td (place opt dst
        (copyOf ((a ts).childrenAt (here src)) made) (a td))) := by
  have hguard : ¬ (opt ≠ .addFirst ∧ opt ≠ .addLast) := by
    rcases hopt with rfl | rfl <;> simp
  obtain ⟨C', t, s', L'⟩ := h.located hsrc
  obtain ⟨C, c, s, L⟩ := h.located hdst
  rw [L'.childrenAt] at F hlast hfirst ⊢
  rw [L.childrenAt] at hlast hfirst
  have hlen := L.length_le
  have hlen' := L'.length_le
  have hsrc' := L'.linked.1.child
  rw [simpleTreeCopyChildrenToChild, if_neg hguard, hsrc']
  cases hx : t.rootValue with
  | none =>
    have ht : t = .nil := by
      cases t with
      | nil => rfl
      | node => simp at hx
    refine ⟨m, rfl, ?_⟩
    rw [ht, copyOf, relabel, L.place_nil, Function.update_eq_self]
    exact h
  | some x₀ =>
    have hti : ∀ u ∈ t.nodes, u ∈ (a ts).nodes := fun u hu => by
      rw [L'.tree, Ctx.mem_fill]
      exact .inr (by simp [hu])
    have ht : t ≠ .nil := by
      rintro rfl
      simp at hx
    obtain ⟨m₂, x, hrun₂, hroot, hl₂, htree₂, hout₂⟩ := dupGroup_spec (n := n) F L'.linked.2.1 hx hti
      (by omega) rest dst
    set T := copyOf t made with hTdef
    have hT : T.nodes = made.map Prod.fst := F.nodes_copyOf
    have hTd : T.nodes.Nodup := hT ▸ F.nodup
    have hTfree : ∀ j, ∀ u ∈ (a j).nodes, u ∉ T.nodes := hT ▸ F.free
    have hTlen : T.nodes.length = t.nodes.length := by rw [hT, List.length_map, F.length]
    obtain ⟨l, hl⟩ := exists_lastValue (t := T) (by intro hnil; simp [hnil] at hroot)
    have hdT : dst ∉ T.nodes := hTfree td dst hdst
    have hsT : src ∉ T.nodes := hTfree ts src hsrc
    rw [← hT] at hout₂
    obtain ⟨m₃, hrun₃, h₃, hl₃⟩ := cohereChild_spec (n := n) hl₂ hTd hdT (by omega) td
    have hcount : (m₃.node src).nodeChildren = T.length := by
      rw [h₃.out src hsT, hout₂ src hsT, L'.linked.1.children, F.length_copyOf]
    have hdepth : (m₂.node dst).nodeDepth = C.depth := by
      rw [hout₂ dst hdT]
      exact L.linked.1.depth _ rfl
    rw [hdepth] at hl₃
    set m₄ := m₃.addChildren dst (m₃.node src).nodeChildren with hm₄
    have hg : Linked m₄ (some dst) (some (C.depth + 1)) none T := by
      refine hl₃.congr fun u hu => ?_
      simp [hm₄, ne_of_mem_of_not_mem hu hdT]
    have hout : ∀ u ∉ T.nodes, m₄.node u = if u = dst then
        { m.node u with nodeChildren := (m.node u).nodeChildren + T.length } else m.node u := by
      intro u hu
      rw [hm₄, Memory.addChildren, Memory.modify_node, h₃.out u hu, hout₂ u hu, hcount]
    have htree : m₄.tree = fun j => if j = td then
        { m.tree j with nodesNum := (m.tree j).nodesNum + T.nodes.length } else m.tree j := by
      rw [← htree₂]
      exact h₃.tree
    have hl₄ : (m₄.node l).pnodeSlibling = none := hg.last hl
    obtain ⟨hchild₄, hc₄⟩ := linked_children L hTfree hout
    rw [hroot] at hrun₃
    dsimp only
    rw [hrun₂, Option.bind_eq_bind, Option.bind_some]
    dsimp only
    change ∃ m', Option.bind (cohereChild n m₂ td (some x)) _ = _ ∧ _
    rw [hrun₃, Option.bind_some, ← hm₄, hchild₄]
    cases c with
    | nil =>
      have hrep := linkFront h L hroot hl hTd hTfree hg hout htree
        (hopt.imp_right fun h => ⟨h, rfl⟩)
      rw [rootValue_nil, setSlibling_self hl₄] at hrep
      exact ⟨_, rfl, hrep⟩
    | node temp c' s₁ =>
      rcases hopt with rfl | rfl
      · obtain ⟨c₁, s₂, hTx⟩ : ∃ c₁ s₂, T = node x c₁ s₂ := by
          cases hT' : T with
          | nil => simp [hT'] at hroot
          | node y c₁ s₂ =>
            rw [hT'] at hroot
            exact ⟨c₁, s₂, by rw [Option.some.inj hroot]⟩
        have hs₂ : s₂ ≠ .nil := by
          rintro rfl
          refine hfirst rfl (by simp) ?_
          rw [← F.length_copyOf, ← hTdef, hTx]
          rfl
        have hrep := linkFront h L hroot hl hTd hTfree hg hout htree (.inl rfl)
        refine ⟨_, ?_, hrep⟩
        simp only [rootValue_node, reduceCtorEq, if_false]
        rw [findLast_eq (hTx ▸ hg), lastValue_node (hTx ▸ hl) hs₂]
        · rfl
        · have := s₂.length_le_nodes
          rw [hTx, nodes_node, List.length_cons, List.length_append] at hTlen
          omega
      · obtain ⟨b, hb⟩ := exists_lastValue (t := node temp c' s₁) (by simp)
        have hs₁ : s₁ ≠ .nil := by
          rintro rfl
          exact hlast rfl ht rfl
        have hrep := linkBack h L hroot hl hTd hTfree hg hout htree hb
        have hlb : l ≠ b := by
          rintro rfl
          refine hTfree td l ?_ (lastValue_mem hl)
          rw [L.tree, Ctx.mem_fill, nodes_node, List.mem_cons, List.mem_append]
          exact .inr (.inr (.inl (lastValue_mem hb)))
        rw [setSlibling_self (l := l) (by simp [hlb, hl₄])] at hrep
        refine ⟨_, ?_, hrep⟩
        simp only [rootValue_node, if_true]
        rw [findLast_eq hc₄, lastValue_node hb hs₁]
        · rfl
        · have := s₁.length_le_nodes
          rw [nodes_node, List.length_cons, List.length_append] at hlen
          omega

theorem copyChildrenToSlibling_spec {td ts : TreeId} {dst src : NodeId} {made : List Dup}
    {rest : List (Option Dup)} (h : Represents m a) (hdst : dst ∈ (a td).nodes)
    (hsrc : src ∈ (a ts).nodes) (hr : (m.tree td).root ≠ some dst)
    (hopt : opt = .insertBefore ∨ opt = .insertAfter)
    (F : Fresh a ((a ts).childrenAt (here src)) made)
    (hn : (a td).nodes.length + (a ts).nodes.length < n) :
    ∃ m', simpleTreeCopyChildrenToSlibling n m td dst src opt (made.map some ++ rest) =
        some (m', true) ∧
      Represents m' (Function.update a td (place opt dst
        (copyOf ((a ts).childrenAt (here src)) made) (a td))) := by
  have hguard : ¬ (opt ≠ .insertBefore ∧ opt ≠ .insertAfter) := by
    rcases hopt with rfl | rfl <;> simp
  obtain ⟨C', t, s', L'⟩ := h.located hsrc
  obtain ⟨C, c, s, L⟩ := h.located hdst
  obtain ⟨w, hw⟩ := L.exists_parent h hr
  rw [L'.childrenAt] at F ⊢
  have hlen := L.length_le
  have hlen' := L'.length_le
  have hsrc' := L'.linked.1.child
  rw [simpleTreeCopyChildrenToSlibling, if_neg hr, if_neg hguard, hsrc']
  cases hx : t.rootValue with
  | none =>
    have ht : t = .nil := by
      cases t with
      | nil => rfl
      | node => simp at hx
    refine ⟨m, rfl, ?_⟩
    rw [ht, copyOf, relabel, L.place_nil, Function.update_eq_self]
    exact h
  | some x₀ =>
    have hti : ∀ u ∈ t.nodes, u ∈ (a ts).nodes := fun u hu => by
      rw [L'.tree, Ctx.mem_fill]
      exact .inr (by simp [hu])
    obtain ⟨m₂, x, hrun₂, hroot, hl₂, htree₂, hout₂⟩ := dupGroup_spec (n := n) F L'.linked.2.1 hx hti
      (by omega) rest w
    set T := copyOf t made with hTdef
    have hT : T.nodes = made.map Prod.fst := F.nodes_copyOf
    have hTd : T.nodes.Nodup := hT ▸ F.nodup
    have hTfree : ∀ j, ∀ u ∈ (a j).nodes, u ∉ T.nodes := hT ▸ F.free
    have hTlen : T.nodes.length = t.nodes.length := by rw [hT, List.length_map, F.length]
    have hwT : w ∉ T.nodes := hTfree td w (L.mem_of_around (Ctx.parent_mem hw))
    obtain ⟨c₁, s₂, hTx⟩ : ∃ c₁ s₂, T = node x c₁ s₂ := by
      cases hT' : T with
      | nil => simp [hT'] at hroot
      | node y c₁ s₂ =>
        rw [hT'] at hroot
        exact ⟨c₁, s₂, by rw [Option.some.inj hroot]⟩
    obtain ⟨l, hcountrun, hl⟩ := countGroup_eq (n := n) (hTx ▸ hl₂) (by
      have := s₂.length_le_nodes
      rw [hTx, nodes_node, List.length_cons, List.length_append] at hTlen
      omega)
    rw [← hTx] at hcountrun hl
    rw [← hT] at hout₂
    obtain ⟨m₃, hrun₃, h₃, hl₃⟩ := cohereChild_spec (n := n) hl₂ hTd hwT (by omega) td
    have hdepth : (m₂.node w).nodeDepth + 1 = C.depth := by
      rw [hout₂ w hwT]
      exact L.around.depth hw
    rw [hdepth] at hl₃
    obtain ⟨m₆, hrun₆, hrep⟩ := linkBeside_spec (n := n) h L hw hopt hroot hl hTd hTfree
      (q := m₃.addChildren w T.length)
      (hl₃.congr fun u hu => by simp [ne_of_mem_of_not_mem hu hwT])
      (fun u hu => by
        rw [Memory.addChildren, Memory.modify_node, h₃.out u hu, hout₂ u hu])
      (by
        rw [← htree₂]
        exact h₃.tree) (by omega)
    refine ⟨m₆, ?_, hrep⟩
    rw [hroot] at hrun₃
    dsimp only
    rw [L.linked.1.parent, hw]
    change Option.bind (simpleTreeDupGroup n m (made.map some ++ rest) x₀ w) _ = _
    rw [hrun₂]
    change Option.bind (countGroup n m₂ x) _ = _
    rw [hcountrun]
    change Option.bind (cohereChild n m₂ td (some x)) _ = _
    rw [hrun₃, Option.bind_some, ← hrun₆]
    rcases hopt with rfl | rfl <;> rfl

/-- **A tree duplicated** into a tree with no nodes. -/
theorem dup_spec {td ts : TreeId} {made : List Dup} {rest : List (Option Dup)}
    (h : Represents m a) (hne : td ≠ ts) (hsrc : a ts ≠ .nil) (hdst : a td = .nil)
    (F : Fresh a (a ts) made) (hn : (a ts).nodes.length < n) :
    ∃ m', simpleTreeDup n m ts td (made.map some ++ rest) = some (m', true) ∧
      Represents m' (Function.update a td (copyOf (a ts) made)) := by
  obtain ⟨v, t, hat⟩ : ∃ v t, a ts = .node v t .nil := by
    have hlen := h.rooted ts
    cases hat : a ts with
    | nil => exact absurd hat hsrc
    | node v t s =>
      rw [hat, length_node] at hlen
      cases s with
      | nil => exact ⟨v, t, rfl⟩
      | node => simp at hlen
  have hroot : (m.tree ts).root = some v := by rw [h.root, hat]; rfl
  have hl : Linked m none (some 0) none (.node v t .nil) := hat ▸ h.linked ts
  rw [hat] at F hn ⊢
  obtain ⟨x, r, mc, rfl, Fc, hxmc, hxa, hcopy⟩ := F.cons
  have hg := F.nodes_copyOf
  rw [hcopy] at hg ⊢
  have hgd : (node x (copyOf t mc) .nil).nodes.Nodup := hg ▸ F.nodup
  have hgfree : ∀ j, ∀ u ∈ (a j).nodes, u ∉ (node x (copyOf t mc) .nil).nodes := hg ▸ F.free
  have hT := Fc.nodes_copyOf
  have hvx : v ≠ x := fun hvx => hxa ts (by rw [hat, ← hvx]; simp)
  have hti : ∀ u ∈ t.nodes, u ∈ (a ts).nodes := fun u hu => by
    rw [hat]
    simp [hu]
  rw [nodes_node, nodes_nil, List.append_nil, List.length_cons] at hn
  set m₁ := (m.set x r).set x ⟨none, none, none, 0, 0⟩ with hm₁
  obtain ⟨m₂, hrun₂, hl₂, htree₂, hout₂⟩ := dupChild_spec (n := n) (m := m₁) Fc
    (hl.2.1.congr fun u hu => by
      simp [hm₁, show u ≠ x from fun hux => hxa ts (hux ▸ hti u hu)]) hti (by omega) rest x
  set T := copyOf t mc with hTdef
  have hTd : T.nodes.Nodup := hT ▸ Fc.nodup
  have hxT : x ∉ T.nodes := hT ▸ hxmc
  have hTlen : T.nodes.length = t.nodes.length := by rw [hT, List.length_map, Fc.length]
  obtain ⟨m₃, hrun₃, h₃, hl₃⟩ := cohereChild_spec (n := n) hl₂ hTd hxT (by omega) td
  have hx₂ : m₂.node x = ⟨none, none, none, 0, 0⟩ := by
    rw [hout₂ x hxmc]
    simp [hm₁]
  have hnum : m₃.tree ts = m.tree ts := by
    rw [h₃.tree, htree₂]
    simp [hne.symm, hm₁]
  set m₆ := (((m₃.setChild x T.rootValue).setChildren x T.length).setRoot td (some x)).setNum td
    (m.tree ts).nodesNum with hm₆
  have hrun : simpleTreeDup n m ts td (((x, r) :: mc).map some ++ rest) = some (m₆, true) := by
    have hchild : (m₁.node v).pnodeChild = t.rootValue := by
      rw [hm₁]
      simp [hvx, hl.1.child]
    have hlast : ((((m₃.setChild x T.rootValue).setChildren x T.length).setRoot td
        (some x)).tree ts).nodesNum = (m.tree ts).nodesNum := by
      simp [hne.symm, hnum]
    rw [simpleTreeDup, hroot]
    change Option.bind (dupChild n m₁ (mc.map some ++ rest) x (m₁.node v).pnodeChild) _ = _
    rw [hchild, hrun₂, hm₆, ← hlast]
    cases hTc : T with
    | nil =>
      rw [hTc] at hrun₃
      cases hrun₃
      rfl
    | node y c₁ s₂ =>
      rw [hTc] at hrun₃ hl₃ hTlen
      obtain ⟨l, hcountrun, -⟩ := countGroup_eq (n := n) hl₃ (by
        have := s₂.length_le_nodes
        rw [nodes_node, List.length_cons, List.length_append] at hTlen
        omega)
      change Option.bind (cohereChild n m₂ td (some y)) _ = _
      rw [rootValue_node] at hrun₃
      rw [hrun₃]
      change Option.bind (countGroup n m₃ y) _ = _
      rw [hcountrun]
      rfl
  refine ⟨m₆, hrun, ?_⟩
  have hx₃ : m₃.node x = ⟨none, none, none, 0, 0⟩ := (h₃.out x hxT).trans hx₂
  have hother : ∀ j, ∀ u ∈ (a j).nodes, m₆.node u = m.node u ∧ u ≠ x := by
    intro j u hu
    have hux : u ≠ x := fun hux => hxa j (hux ▸ hu)
    have huT : u ∉ T.nodes := fun huT => Fc.free j u hu (hT ▸ huT)
    refine ⟨?_, hux⟩
    calc m₆.node u = m₃.node u := by simp [hm₆, hux]
      _ = m₂.node u := h₃.out u huT
      _ = m₁.node u := hout₂ u (Fc.free j u hu)
      _ = m.node u := by simp [hm₁, hux]
  refine h.refill (C := .top) (t := .nil) (u := .node x T .nil) hdst (by simp [Ctx.nodes]) ?_ hgd
    (by simp [Ctx.nodes]) (fun j hj u hu => ⟨(hother j u hu).1, hgfree j u hu⟩) (by simp [Ctx.fill])
    (fun j hj => ?_) (by simp [Ctx.fill, hm₆]) ?_
  · have hbelow : Linked m₆ (some x) (some 1) none T := by
      rw [hx₂] at hl₃
      exact hl₃.congr fun u hu => by simp [hm₆, show u ≠ x from fun hux => hxT (hux ▸ hu)]
    refine ⟨⟨?_, ?_, ?_, ?_, ?_⟩, hbelow, trivial⟩
    all_goals simp [hm₆, hx₃, Ctx.parent, Ctx.depth]
  · have htree : m₃.tree j = m.tree j := by
      rw [h₃.tree, htree₂]
      simp [hj, hm₁]
    simp [hm₆, hj, htree]
  · have hzero : (m.tree td).nodesNum = 0 := by
      rw [h.nodesNum, hdst]
      rfl
    have hcount : (m.tree ts).nodesNum = t.nodes.length + 1 := by
      rw [h.nodesNum, hat]
      simp
    simp [hm₆, hzero, hcount, hTlen]

end SteepSystem.SimpleTrees
