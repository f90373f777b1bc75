import SteepSystem.SimpleTrees.Insert

/-!
Nodes moved with everything below them, and children moved without their parent. A node is first
stripped and cut out of its tree; what is left stands for the tree without it, and the group is
hung in from there.
-/

namespace SteepSystem.SimpleTrees

open SteepSystem.Lib SteepSystem.Lib.Forest

variable {m m' : Memory} {a : Trees} {i j : TreeId} {C : Ctx NodeId} {v w : NodeId}
  {c s t g : Forest NodeId} {n : ℕ} {opt : TreeOpt}

/-- A node out of its tree, with what is below it still linked to it. -/
structure Detached (m : Memory) (a : Trees) (v : NodeId) (c : Forest NodeId) : Prop where
  child : (m.node v).pnodeChild = c.rootValue
  children : (m.node v).nodeChildren = c.length
  linked : Linked m (some v) none none c
  nodup : (node v c .nil).nodes.Nodup
  free : ∀ j, ∀ u ∈ (a j).nodes, u ∉ (node v c .nil).nodes

/-- **A node cut out of the source tree**, its children stripped first. -/
lemma cutNode_spec (h : Represents m a) (hv : v ∈ (a i).nodes) (hn : (a i).nodes.length ≤ n) :
    ∃ m₁ m₂, stripChild n m i (m.node v).pnodeChild = some m₁ ∧ cutNode n m₁ i v = some m₂ ∧
      Represents m₂ (Function.update a i ((a i).remove (here v))) ∧
      Detached m₂ (Function.update a i ((a i).remove (here v))) v ((a i).childrenAt (here v)) := by
  obtain ⟨C, c, s, L⟩ := h.located hv
  rw [L.childrenAt, L.remove]
  obtain ⟨⟨hvc, hvs⟩, hdc, hds, hcs⟩ := nodup_node.1 L.nodup
  have hlen := L.length_le
  have hnode := L.linked.1
  rw [Option.or_none] at hnode
  obtain ⟨m₁, hrun₁, h₁⟩ := stripChild_spec (n := n)
    (L.linked.2.1.loose fun u _ => (rfl : SameLinks (m.node u) (m.node u))) hdc (by omega) i
  have htree₁ := h₁.tree
  have hroot₁ : (m₁.tree i).root = (m.tree i).root := by simp [htree₁]
  have hcount : (m.tree i).nodesNum = (a i).nodes.length := h.nodesNum i
  have hdet : ∀ m₂, (∀ u, u = v ∨ u ∈ c.nodes → m₂.node u = m₁.node u) →
      Detached m₂ (Function.update a i (C.fill s)) v c := by
    intro m₂ hm₂
    refine ⟨?_, ?_, ?_, ?_, fun j u hu huv => ?_⟩
    · rw [hm₂ v (.inl rfl), (h₁.same v).child, hnode.child]
    · rw [hm₂ v (.inl rfl), (h₁.same v).children, hnode.children]
    · exact (L.linked.2.1.loose fun u _ => h₁.same u).congr fun u hu => hm₂ u (.inr hu)
    · exact nodup_node.2 ⟨⟨hvc, List.not_mem_nil⟩, hdc, List.nodup_nil, fun u _ => List.not_mem_nil⟩
    · simp only [nodes_node, nodes_nil, List.append_nil, List.mem_cons] at huv
      by_cases hj : j = i
      · rw [hj, Function.update_self, Ctx.mem_fill] at hu
        rcases hu with hu | hu
        · exact L.apart u hu (by rcases huv with rfl | huc <;> simp_all)
        · exact huv.elim (fun huv => hvs (huv ▸ hu)) fun huc => hcs u huc hu
      · rw [Function.update_of_ne hj] at hu
        refine h.apart j i hj u hu ?_
        rw [L.tree, Ctx.mem_fill]
        exact .inr (by rcases huv with rfl | huc <;> simp_all)
  have hC : ∀ u ∈ C.nodes, m₁.node u = m.node u := fun u hu =>
    h₁.out u fun huc => L.apart u hu (by simp [huc])
  have hnode₁ : m₁.node v = m.node v := h₁.out v hvc
  refine ⟨m₁, ?_⟩
  rw [hnode.child]
  by_cases hr : (m.tree i).root = some v
  · obtain ⟨rfl, rfl⟩ := L.eq_top h hr
    refine ⟨(m₁.setRoot i none).subNum i 1, hrun₁, ?_, ?_, hdet _ fun u _ => rfl⟩
    · rw [cutNode, hroot₁, if_neg (by simp [hr])]
      rfl
    refine h.cut L (fun u hu => ?_) (by simp [Ctx.fill]) ?_ (fun j hj => by simp [hj, htree₁])
    · simp only [nodes_node, nodes_nil, List.append_nil, List.mem_cons, not_or] at hu
      simp [relink, Ctx.cell, Ctx.parent, h₁.out u hu.2]
    · simp only [Memory.setRoot, Memory.subNum, Memory.modifyTree_tree, htree₁, if_pos]
      rw [nodes_nil, List.length_nil] at hlen
      omega
  obtain ⟨w, hw⟩ := L.exists_parent h hr
  have hwv : w ≠ v := fun hwv => L.notMem (hwv ▸ Ctx.parent_mem hw)
  have hw₁ : m₁.node w = m.node w := hC w (Ctx.parent_mem hw)
  have hwc : w ∉ c.nodes := fun hwc => L.apart w (Ctx.parent_mem hw) (by simp [hwc])
  have hnum : ∀ m' : Memory, m'.tree = (m₁.subNum i 1).tree →
      (m'.tree i).nodesNum + (c.nodes.length + 1) = (m.tree i).nodesNum := by
    intro m' hm'
    rw [hm']
    simp only [Memory.subNum, Memory.modifyTree_tree, htree₁, if_pos]
    omega
  have hroots : (m.tree i).root = (C.fill s).rootValue := by
    rw [h.root, L.tree]
    exact Ctx.rootValue_fill (.inl (by rw [hw]; rfl))
  have hk := L.around.children hw
  rcases L.around.link_cases (n := n) L.notMem hw (by omega) with
    ⟨hcell, hchild⟩ | ⟨y, x₀, hcell, hyC, hchild, hx₀, hrun⟩
  · have hnext : (if (m.node w).nodeChildren = 1 then none else s.rootValue) = s.rootValue := by
      rw [hk, Ctx.before_of_child hcell]
      cases s <;> simp
    refine ⟨((m₁.setChild w s.rootValue).subChildren w 1).subNum i 1, hrun₁, ?_, ?_,
      hdet _ fun u hu => ?_⟩
    · rw [cutNode, hroot₁, if_pos (Ne.symm hr), hnode₁, hnode.parent, hw, Option.bind_eq_bind,
        Option.bind_some, hw₁, hchild, Option.bind_some, if_pos rfl, hnode.slibling, hnext]
      rfl
    · refine h.cut L (fun u hu => ?_) ?_ (hnum _ rfl) (fun j hj => by simp [hj, htree₁])
      · simp only [nodes_node, nodes_nil, List.append_nil, List.mem_cons, not_or] at hu
        rw [relink_child hcell, ← h₁.out u hu.2]
        by_cases huw : u = w <;> simp [huw]
      · simp [hroot₁, hroots]
    · have huw : u ≠ w := by
        rintro rfl
        exact hu.elim hwv hwc
      simp [huw]
  · have hyw := cell_ne_parent L.nodupAround hcell hw
    refine ⟨((m₁.setSlibling y s.rootValue).subChildren w 1).subNum i 1, hrun₁, ?_, ?_,
      hdet _ fun u hu => ?_⟩
    · rw [cutNode, hroot₁, if_pos (Ne.symm hr), hnode₁, hnode.parent, hw, Option.bind_eq_bind,
        Option.bind_some, hw₁, hchild, Option.bind_some, if_neg hx₀,
        hrun m₁ fun u hu => by rw [hC u hu], hnode.slibling]
      rfl
    · refine h.cut L (fun u hu => ?_) ?_ (hnum _ rfl) (fun j hj => by simp [hj, htree₁])
      · simp only [nodes_node, nodes_nil, List.append_nil, List.mem_cons, not_or] at hu
        rw [relink_sibling L.nodupAround hcell hw, ← h₁.out u hu.2]
        by_cases huy : u = y
        · simp [huy, hyw]
        · by_cases huw : u = w <;> simp [huw, huy, Ne.symm hyw]
      · simp [hroot₁, hroots]
    · have huy : u ≠ y := by
        rintro rfl
        exact L.apart u hyC (by rcases hu with rfl | hu <;> simp_all)
      have huw : u ≠ w := by
        rintro rfl
        exact hu.elim hwv hwc
      simp [huw, huy]

lemma eq_with_slibling {r : SimpleTreeNode} {x : Option NodeId} (h : r.pnodeSlibling = x) :
    r = { r with pnodeSlibling := x } := by
  rw [← h]

/-- **A detached node hung in and cohered.** Its own link to the next sibling may be set before
its children are cohered, or after. -/
lemma Represents.hangTree (h : Represents m a) (L : Located m a i C w c s)
    (opt : TreeOpt) {p : NodeId} (hp : (slot opt C w c s).1.parent = some p) (D : Detached m a v t)
    {q : Memory} (hparent : (q.node v).pnodeParent = some p)
    (hdepth : (q.node v).nodeDepth = (slot opt C w c s).1.depth)
    (hchild : (q.node v).pnodeChild = t.rootValue)
    (hchildren : (q.node v).nodeChildren = t.length)
    (hbelow : ∀ u ∈ t.nodes, q.node u = m.node u)
    (hout : ∀ u ≠ v, u ∉ t.nodes →
      q.node u = relink (slot opt C w c s).1 (some v) (· + 1) u (m.node u))
    (htree : q.tree = (m.addNum i 1).tree) (hn : t.nodes.length ≤ n) :
    ∃ m₅, cohereChild n q i t.rootValue = some m₅ ∧ m₅.node v = q.node v ∧
      ∀ m₆ : Memory, m₆.tree = m₅.tree → (∀ u ≠ v, m₆.node u = m₅.node u) →
        m₆.node v = { m₅.node v with pnodeSlibling := (slot opt C w c s).2.rootValue } →
          Represents m₆ (Function.update a i (place opt w (.node v t .nil) (a i))) := by
  obtain ⟨⟨hvt, -⟩, hdt, -⟩ := nodup_node.1 D.nodup
  obtain ⟨m₅, hrun, h₅, hl⟩ := cohereChild_spec (n := n) (D.linked.congr hbelow) hdt hvt hn i
  refine ⟨m₅, hrun, h₅.out v hvt, fun m₆ htree₆ hout₆ hv₆ => ?_⟩
  refine h.hangAt L opt hp (by simp) D.nodup D.free ?_ (fun u hu => ?_) ?_
  · refine ⟨⟨?_, ?_, ?_, ?_, ?_⟩, ?_, trivial⟩
    all_goals try rw [hv₆, h₅.out v hvt]
    · rfl
    · exact hchild
    · exact hparent
    · rintro e ⟨⟩
      exact hdepth
    · exact hchildren
    · rw [hdepth] at hl
      exact hl.congr fun u hu => hout₆ u (ne_of_mem_of_not_mem hu hvt)
  · simp only [nodes_node, nodes_nil, List.append_nil, List.mem_cons, not_or] at hu
    rw [hout₆ u hu.1, h₅.out u hu.2, hout u hu.1 hu.2]
    rfl
  · rw [htree₆, h₅.tree, htree]
    funext j
    by_cases hj : j = i
    · simp only [Memory.addNum, Memory.modifyTree_tree, hj, if_pos, nodes_node, nodes_nil,
        List.append_nil, List.length_cons]
      congr 1
      omega
    · simp [hj]

/-- A node has got a parent, which counts it; neither is linked to the other's place yet. -/
structure Adopted (m m₃ : Memory) (i : TreeId) (v p : NodeId) (d : ℕ) : Prop where
  self : m₃.node v = { m.node v with pnodeParent := some p, nodeDepth := d }
  parent : m₃.node p = { m.node p with nodeChildren := (m.node p).nodeChildren + 1 }
  out : ∀ u ≠ v, u ≠ p → m₃.node u = m.node u
  tree : m₃.tree = (m.addNum i 1).tree

/-- What `hangTree` gives of the memory `q` from which the children are cohered. -/
def Hung (n : ℕ) (q : Memory) (a : Trees) (i : TreeId) (opt : TreeOpt) (C : Ctx NodeId)
    (w v : NodeId) (c s t : Forest NodeId) : Prop :=
  ∃ m₅, cohereChild n q i t.rootValue = some m₅ ∧ m₅.node v = q.node v ∧
    ∀ m₆ : Memory, m₆.tree = m₅.tree → (∀ u ≠ v, m₆.node u = m₅.node u) →
      m₆.node v = { m₅.node v with pnodeSlibling := (slot opt C w c s).2.rootValue } →
        Represents m₆ (Function.update a i (place opt w (.node v t .nil) (a i)))

/-- The node becomes the first child. -/
lemma Represents.hangChild (h : Represents m a) (L : Located m a i C w c s) (opt : TreeOpt)
    {p : NodeId} (hcell : (slot opt C w c s).1.cell = .child p)
    (hp : (slot opt C w c s).1.parent = some p) (hpi : p ∈ (a i).nodes) (D : Detached m a v t)
    {m₃ : Memory} (A : Adopted m m₃ i v p (slot opt C w c s).1.depth) (x : Option NodeId)
    (hn : t.nodes.length ≤ n) :
    Hung n ((m₃.setSlibling v x).setChild p (some v)) a i opt C w v c s t := by
  have hpv : p ≠ v := fun hpv => D.free i p hpi (by simp [hpv])
  have hpt : p ∉ t.nodes := fun hpt => D.free i p hpi (by simp [hpt])
  have hvt : v ∉ t.nodes := (nodup_node.1 D.nodup).1.1
  refine h.hangTree L opt hp D (by simp [A.self, Ne.symm hpv]) (by simp [A.self, Ne.symm hpv])
    (by simp [A.self, Ne.symm hpv, D.child]) (by simp [A.self, Ne.symm hpv, D.children])
    (fun u hu => ?_) (fun u hu hut => ?_) A.tree hn
  · have huv : u ≠ v := ne_of_mem_of_not_mem hu hvt
    have hup : u ≠ p := ne_of_mem_of_not_mem hu hpt
    simp [huv, hup, A.out u huv hup]
  · rw [relink_child hcell]
    by_cases hup : u = p
    · simp [hup, hpv, A.parent]
    · simp [hu, hup, A.out u hu hup]

/-- The node comes behind another one. -/
lemma Represents.hangSibling (h : Represents m a) (L : Located m a i C w c s) (opt : TreeOpt)
    {p l : NodeId} (hcell : (slot opt C w c s).1.cell = .sibling l)
    (hp : (slot opt C w c s).1.parent = some p) (hpi : p ∈ (a i).nodes) (hli : l ∈ (a i).nodes)
    (D : Detached m a v t) {m₃ : Memory} (A : Adopted m m₃ i v p (slot opt C w c s).1.depth)
    (x : Option NodeId) (hn : t.nodes.length ≤ n) :
    Hung n ((m₃.setSlibling v x).setSlibling l (some v)) a i opt C w v c s t := by
  have hpv : p ≠ v := fun hpv => D.free i p hpi (by simp [hpv])
  have hpt : p ∉ t.nodes := fun hpt => D.free i p hpi (by simp [hpt])
  have hlv : l ≠ v := fun hlv => D.free i l hli (by simp [hlv])
  have hlt : l ∉ t.nodes := fun hlt => D.free i l hli (by simp [hlt])
  have hvt : v ∉ t.nodes := (nodup_node.1 D.nodup).1.1
  have hlp := cell_ne_parent (L.nodup_slot h opt) hcell hp
  refine h.hangTree L opt hp D (by simp [A.self, Ne.symm hlv]) (by simp [A.self, Ne.symm hlv])
    (by simp [A.self, Ne.symm hlv, D.child]) (by simp [A.self, Ne.symm hlv, D.children])
    (fun u hu => ?_) (fun u hu hut => ?_) A.tree hn
  · have huv : u ≠ v := ne_of_mem_of_not_mem hu hvt
    simp [huv, ne_of_mem_of_not_mem hu hlt, A.out u huv (ne_of_mem_of_not_mem hu hpt)]
  · rw [relink_sibling (L.nodup_slot h opt) hcell hp]
    by_cases hul : u = l
    · simp [hul, hlv, A.out l hlv hlp]
    · by_cases hup : u = p
      · simp [hup, hpv, Ne.symm hlp, A.parent]
      · simp [hu, hul, hup, A.out u hu hup]

/-- Nodes above a place are not above what hangs in none of their children. -/
lemma Located.notMem_ancestors (L : Located m a i C w c s)
    (hw : w ∉ ((a i).childrenAt (here v)).nodes) (hd : (a i).nodes.Nodup) : v ∉ C.ancestors := by
  intro hv
  obtain ⟨D, c', s', hD, hsub⟩ := Ctx.exists_of_mem_ancestors hv (.node w c s)
  rw [← L.tree] at hD
  refine hw ?_
  rw [hD] at hd ⊢
  have hvD : v ∉ D.nodes := fun hvD => (Ctx.nodup_fill.1 hd).2.2 v hvD (by simp)
  rw [Ctx.childrenAt_fill (here_of_notMem hvD), Forest.childrenAt, here]
  simpa using hsub w (by simp)

/-- What is not at a node or below it stays when the node is cut out. -/
lemma mem_remove (h : Represents m a) (hw : w ∈ (a j).nodes) (hne : w ≠ v)
    (hv : v ∈ (a i).nodes) (hc : w ∉ ((a i).childrenAt (here v)).nodes) :
    w ∈ (Function.update a i ((a i).remove (here v)) j).nodes := by
  by_cases hj : j = i
  · subst hj
    obtain ⟨C, c, s, L⟩ := h.located hv
    rw [L.childrenAt] at hc
    rw [L.tree, Ctx.mem_fill, nodes_node, List.mem_cons, List.mem_append] at hw
    rw [Function.update_self, L.remove, Ctx.mem_fill]
    tauto
  · rwa [Function.update_of_ne hj]

/-- The children of a node are in the node's tree. -/
lemma notMem_childrenAt (h : Represents m a) (hw : w ∈ (a j).nodes)
    (hc : w ∉ ((a j).childrenAt (here v)).nodes) (hv : v ∈ (a i).nodes) :
    w ∉ ((a i).childrenAt (here v)).nodes := by
  by_cases hj : j = i
  · rwa [← hj]
  · obtain ⟨C, c, s, L⟩ := h.located hv
    rw [L.childrenAt]
    refine fun hwc => h.apart j i hj w hw ?_
    rw [L.tree, Ctx.mem_fill]
    exact .inr (by simp [hwc])

lemma length_remove_le (h : Represents m a) (hv : v ∈ (a i).nodes) :
    (Function.update a i ((a i).remove (here v)) j).nodes.length ≤ (a j).nodes.length := by
  by_cases hj : j = i
  · subst hj
    obtain ⟨C, c, s, L⟩ := h.located hv
    rw [Function.update_self, L.remove, Ctx.length_nodes_fill, ← L.length_le]
    omega
  · rw [Function.update_of_ne hj]

lemma length_childrenAt_lt (h : Represents m a) (hv : v ∈ (a i).nodes) :
    ((a i).childrenAt (here v)).nodes.length < (a i).nodes.length := by
  obtain ⟨C, c, s, L⟩ := h.located hv
  rw [L.childrenAt, ← L.length_le]
  omega

/-- The loop that looks for the source node above the place comes to the root. -/
lemma meetsAbove_eq_false (h : Represents m a) (hw : w ∈ (a j).nodes)
    (hanc : w ∉ ((a j).childrenAt (here v)).nodes) (hn : (a j).nodes.length ≤ n) :
    meetsAbove n m w v = some false := by
  obtain ⟨C, c, s, L⟩ := h.located hw
  have hanc' := L.notMem_ancestors hanc (h.nodup j)
  rw [meetsAbove_eq L.around L.linked.1.parent (by have := L.length_le; omega)]
  simp [hanc']

theorem moveNodeToChild_spec {td ts : TreeId} {dst src : NodeId} (h : Represents m a)
    (hdst : dst ∈ (a td).nodes) (hsrc : src ∈ (a ts).nodes) (hne : dst ≠ src)
    (hanc : dst ∉ ((a td).childrenAt (here src)).nodes)
    (hopt : opt = .addFirst ∨ opt = .addLast)
    (hlast : opt = .addLast → ((Function.update a ts ((a ts).remove (here src)) td).childrenAt
      (here dst)).length ≠ 1)
    (hn : (a td).nodes.length + (a ts).nodes.length < n) :
    ∃ m', simpleTreeMoveNodeToChild n m td dst ts src opt = some (m', true) ∧
      Represents m' (Function.update (Function.update a ts ((a ts).remove (here src))) td
        (place opt dst (.node src ((a ts).childrenAt (here src)) .nil)
          (Function.update a ts ((a ts).remove (here src)) td))) := by
  obtain ⟨m₁, m₂, hrun₁, hrun₂, h₂, D⟩ := cutNode_spec (n := n) h hsrc (by omega)
  have hmet : meetsParent n m dst src = some false := by
    obtain ⟨n, rfl⟩ : ∃ l, n = l + 1 := ⟨n - 1, by omega⟩
    rw [meetsParent_succ, if_neg hne]
    exact meetsAbove_eq_false h hdst hanc (by omega)
  have hchild : (m.node src).pnodeChild = ((a ts).childrenAt (here src)).rootValue := by
    obtain ⟨C, c, s, L⟩ := h.located hsrc
    rw [L.childrenAt, L.linked.1.child]
  have hguard : ¬ (opt ≠ .addFirst ∧ opt ≠ .addLast) := by
    rcases hopt with rfl | rfl <;> simp
  have hdst₂ := mem_remove h hdst hne hsrc (notMem_childrenAt h hdst hanc hsrc)
  have hlen₁ := length_remove_le (j := td) h hsrc
  have hlent := length_childrenAt_lt h hsrc
  set a₁ := Function.update a ts ((a ts).remove (here src)) with ha₁
  set t := (a ts).childrenAt (here src) with ht
  obtain ⟨C, c, s, L⟩ := h₂.located hdst₂
  have hlen := L.length_le
  have hnode := L.linked.1
  set m₃ := (((m₂.setParent src (some dst)).setDepth src
    (((m₂.setParent src (some dst)).node dst).nodeDepth + 1)).addChildren dst 1).addNum td 1
    with hm₃
  have A : Adopted m₂ m₃ td src dst (C.depth + 1) := by
    refine ⟨?_, ?_, fun u hus hud => ?_, rfl⟩
    · simp [hm₃, hne, Ne.symm hne, hnode.depth]
    · simp [hm₃, hne]
    · simp [hm₃, hus, hud]
  have hrun : simpleTreeMoveNodeToChild n m td dst ts src opt =
      c.rootValue.elim
        ((cohereChild n ((m₃.setSlibling src none).setChild dst (some src)) td t.rootValue).bind
          fun m => some (m, true))
        fun temp => if opt = .addFirst then
          (cohereChild n ((m₃.setSlibling src none).setChild dst (some src)) td t.rootValue).bind
            fun m => some (m.setSlibling src (some temp), true)
        else (findLast n m₃ temp none).bind fun last => last.bind fun last =>
          (cohereChild n ((m₃.setSlibling src none).setSlibling last (some src)) td
            t.rootValue).bind fun m => some (m, true) := by
    have hc : (m₃.node dst).pnodeChild = c.rootValue := by
      simp [hm₃, hne, hnode.child]
    rw [simpleTreeMoveNodeToChild, if_neg hguard, hmet, Option.bind_eq_bind, Option.bind_some]
    simp only [Bool.false_eq_true, if_false]
    rw [hrun₁, Option.bind_eq_bind, Option.bind_some, hrun₂, Option.bind_some]
    rw [← hm₃, hc, hchild]
    cases c.rootValue <;> rfl
  rw [hrun]
  cases c with
  | nil =>
    have hslot : slot opt C dst .nil s = (.down C dst s, .nil) := by
      rcases hopt with rfl | rfl <;> rfl
    obtain ⟨m₅, hrun₅, hv₅, hrep⟩ := h₂.hangChild (n := n) L opt (by rw [hslot]; rfl)
      (by rw [hslot]; rfl) hdst₂ D (by rw [hslot]; exact A) none (by omega)
    refine ⟨m₅, by rw [hrun₅]; rfl, hrep m₅ rfl (fun u _ => rfl) (eq_with_slibling ?_)⟩
    rw [hv₅]
    simp [hslot, Ne.symm hne]
  | node temp c' s' =>
    rcases hopt with rfl | rfl
    · obtain ⟨m₅, hrun₅, hv₅, hrep⟩ := h₂.hangChild (n := n) L .addFirst rfl rfl hdst₂ D A none
        (by omega)
      refine ⟨m₅.setSlibling src (some temp), ?_, hrep _ rfl (fun u hu => ?_) ?_⟩
      · simp only [rootValue_node, Option.elim_some, if_true]
        rw [hrun₅]
        rfl
      · simp [hu]
      · simp [slot]
    · -- The loop leaves `pnode_last` set, for there are two children at least.
      have hchildren : (a₁ td).childrenAt (here dst) = node temp c' s' := L.childrenAt
      have hs' : s' ≠ .nil := by
        rintro rfl
        exact hlast rfl (by rw [hchildren]; rfl)
      obtain ⟨l, hl⟩ := exists_lastValue hs'
      have hl' : (node temp c' s').lastValue = some l := by rw [lastValue, hl]; rfl
      have hlmem : l ∈ (a₁ td).nodes := by
        rw [L.tree, Ctx.mem_fill]
        exact .inr (by
          rw [nodes_node, List.mem_cons, List.mem_append]
          exact .inr (.inl (lastValue_mem hl')))
      have hls : l ≠ src := fun hls => D.free td l hlmem (by simp [hls])
      have hcell : (slot .addLast C dst (node temp c' s') s).1.cell = .sibling l :=
        Ctx.cell_past _ hl'
      have hparent : (slot .addLast C dst (node temp c' s') s).1.parent = some dst :=
        Ctx.parent_past _ _
      have hfind : findLast n m₃ temp none = some (some l) := by
        have hc : Linked m₃ (some dst) (some (C.depth + 1)) none (node temp c' s') := by
          refine L.linked.2.1.congr fun u hu => ?_
          have hus : u ≠ src := by
            rintro rfl
            refine D.free td u ?_ (by simp)
            rw [L.tree, Ctx.mem_fill, nodes_node, List.mem_cons, List.mem_append]
            exact .inr (.inr (.inl hu))
          have hud : u ≠ dst := ne_of_mem_of_not_mem hu (nodup_node.1 L.nodup).1.1
          simp [hm₃, hus, hud]
        rw [findLast_eq hc, hl]
        · rfl
        · have := s'.length_le_nodes
          rw [nodes_node, List.length_cons, List.length_append] at hlen
          omega
      have hdepth : (slot .addLast C dst (node temp c' s') s).1.depth = C.depth + 1 := by
        simp [slot, Ctx.depth_past, Ctx.depth]
      obtain ⟨m₅, hrun₅, hv₅, hrep⟩ := h₂.hangSibling (n := n) L .addLast hcell hparent hdst₂ hlmem
        D (by rw [hdepth]; exact A) none (by omega)
      refine ⟨m₅, ?_, hrep m₅ rfl (fun u _ => rfl) (eq_with_slibling ?_)⟩
      · simp only [rootValue_node, Option.elim_some, reduceCtorEq, if_false]
        rw [hfind, Option.bind_some, Option.bind_some, hrun₅]
        rfl
      · rw [hv₅]
        simp [slot, Ne.symm hls]

/-- The first child of a node, where the source finds it: the parent is linked to it. -/
lemma first_child (h : Represents m a) (L : Located m a i C v c s) {p : NodeId}
    (hp : ((a i).childrenAt (here p)).rootValue = some v) :
    C.parent = some p ∧ (m.node p).pnodeChild = some v := by
  have hpi : p ∈ (a i).nodes := by
    by_contra hpi
    rw [childrenAt_eq_nil (here_of_notMem hpi)] at hp
    simp at hp
  obtain ⟨D, c', s', L'⟩ := h.located hpi
  rw [L'.childrenAt] at hp
  refine ⟨?_, L'.linked.1.child.trans hp⟩
  cases c' with
  | nil => simp at hp
  | node x c₁ s₁ =>
    obtain rfl := Option.some.inj hp
    rw [← L.linked.1.parent, L'.linked.2.1.1.parent]

/-- A node that is not the root does not become it when another is cut out. -/
lemma root_remove (h : Represents m a) (hv : v ∈ (a i).nodes)
    (hw : w ∈ (Function.update a i ((a i).remove (here v)) j).nodes)
    (hr : (a j).rootValue ≠ some w) :
    (Function.update a i ((a i).remove (here v)) j).rootValue ≠ some w := by
  by_cases hj : j = i
  · subst hj
    obtain ⟨C, c, s, L⟩ := h.located hv
    rw [Function.update_self, L.remove] at hw ⊢
    by_cases hroot : (m.tree j).root = some v
    · obtain ⟨rfl, rfl⟩ := L.eq_top h hroot
      simp [Ctx.fill] at hw
    · obtain ⟨p, hp⟩ := L.exists_parent h hroot
      rwa [Ctx.rootValue_fill (u := node v c s) (.inl (by rw [hp]; rfl)), ← L.tree]
  · rwa [Function.update_of_ne hj]

lemma setSlibling_setChild (hvw : v ≠ w) (x y : Option NodeId) :
    (m.setSlibling v x).setChild w y = (m.setChild w y).setSlibling v x := by
  simp only [Memory.setSlibling, Memory.setChild, Memory.modify]
  congr 1
  funext u
  by_cases huv : u = v
  · simp [huv, hvw]
  · simp [huv]

theorem moveNodeToSlibling_spec {td ts : TreeId} {dst src : NodeId} (h : Represents m a)
    (hdst : dst ∈ (a td).nodes) (hsrc : src ∈ (a ts).nodes) (hne : dst ≠ src)
    (hanc : dst ∉ ((a td).childrenAt (here src)).nodes) (hr : (m.tree td).root ≠ some dst)
    (hopt : opt = .insertBefore ∨ opt = .insertAfter)
    (hfirst : opt = .insertBefore → ∃ p, ((Function.update a ts ((a ts).remove (here src))
      td).childrenAt (here p)).rootValue = some dst)
    (hn : (a td).nodes.length + (a ts).nodes.length < n) :
    ∃ m', simpleTreeMoveNodeToSlibling n m td dst ts src opt = some (m', true) ∧
      Represents m' (Function.update (Function.update a ts ((a ts).remove (here src))) td
        (place opt dst (.node src ((a ts).childrenAt (here src)) .nil)
          (Function.update a ts ((a ts).remove (here src)) td))) := by
  obtain ⟨m₁, m₂, hrun₁, hrun₂, h₂, D⟩ := cutNode_spec (n := n) h hsrc (by omega)
  have hmet := meetsAbove_eq_false (n := n) h hdst hanc (by omega)
  have hchild : (m.node src).pnodeChild = ((a ts).childrenAt (here src)).rootValue := by
    obtain ⟨C, c, s, L⟩ := h.located hsrc
    rw [L.childrenAt, L.linked.1.child]
  have hguard : ¬ (opt ≠ .insertAfter ∧ opt ≠ .insertBefore) := by
    rcases hopt with rfl | rfl <;> simp
  have hdst₂ := mem_remove h hdst hne hsrc (notMem_childrenAt h hdst hanc hsrc)
  have hlen₁ := length_remove_le (j := td) h hsrc
  have hlent := length_childrenAt_lt h hsrc
  set a₁ := Function.update a ts ((a ts).remove (here src)) with ha₁
  set t := (a ts).childrenAt (here src) with ht
  obtain ⟨C, c, s, L⟩ := h₂.located hdst₂
  have hlen := L.length_le
  have hnode := L.linked.1
  have hr₂ : (m₂.tree td).root ≠ some dst := by
    rw [h₂.root]
    exact root_remove h hsrc hdst₂ (h.root td ▸ hr)
  obtain ⟨w, hw⟩ := L.exists_parent h₂ hr₂
  have hmemw : w ∈ (a₁ td).nodes := L.mem_of_around (Ctx.parent_mem hw)
  have hws : w ≠ src := fun hws => D.free td w hmemw (by simp [hws])
  have hdw : dst ≠ w := fun hdw => L.notMem (hdw ▸ Ctx.parent_mem hw)
  have hdepth := hnode.depth _ rfl
  set m₃ := (((m₂.addChildren w 1).addNum td 1).setParent src (some w)).setDepth src
    ((((m₂.addChildren w 1).addNum td 1).setParent src (some w)).node dst).nodeDepth with hm₃
  have A : Adopted m₂ m₃ td src w C.depth := by
    refine ⟨?_, ?_, fun u hus huw => ?_, rfl⟩
    · simp [hm₃, hne, hdw, Ne.symm hws, hdepth]
    · simp [hm₃, hws]
    · simp [hm₃, hus, huw]
  rcases hopt with rfl | rfl
  · -- The one place before a node that is set right: the node is the first child there.
    obtain ⟨p, hp⟩ := hfirst rfl
    obtain ⟨hpC, hpchild⟩ := first_child h₂ L hp
    obtain rfl : w = p := Option.some.inj (hw.symm.trans hpC)
    obtain ⟨hcell, -⟩ | ⟨y, x₀, -, -, hx, hx₀, -⟩ := L.around.link_cases L.notMem hw le_rfl
    swap
    · exact absurd (Option.some.inj (hx.symm.trans hpchild)) hx₀
    obtain ⟨m₅, hrun₅, hv₅, hrep⟩ := h₂.hangChild (n := n) L .insertBefore hcell hw hmemw D A
      (some dst) (by omega)
    rw [setSlibling_setChild (Ne.symm hws)] at hrun₅ hv₅
    refine ⟨m₅, ?_, hrep m₅ rfl (fun u _ => rfl) (eq_with_slibling ?_)⟩
    · rw [simpleTreeMoveNodeToSlibling, if_neg hguard, if_neg hne, hmet, Option.bind_eq_bind,
        Option.bind_some]
      simp only [Bool.false_eq_true, if_false, if_neg (Ne.symm hr), reduceCtorEq]
      rw [hrun₁, Option.bind_eq_bind, Option.bind_some, hrun₂, Option.bind_some, hnode.parent, hw,
        Option.bind_eq_bind]
      have hwchild : (m₃.node w).pnodeChild = some dst := by
        simp [hm₃, hws, hpchild]
      rw [Option.bind_some, ← hm₃, hwchild, Option.bind_some, if_pos rfl, Option.bind_some, hchild,
        hrun₅]
      rfl
    · rw [hv₅]
      simp [slot]
  · have hcell : (slot .insertAfter C dst c s).1.cell = .sibling dst := rfl
    obtain ⟨m₅, hrun₅, hv₅, hrep⟩ := h₂.hangSibling (n := n) L .insertAfter hcell hw hmemw hdst₂ D
      A (m₃.node dst).pnodeSlibling (by omega)
    refine ⟨m₅, ?_, hrep m₅ rfl (fun u _ => rfl) (eq_with_slibling ?_)⟩
    · rw [simpleTreeMoveNodeToSlibling, if_neg hguard, if_neg hne, hmet, Option.bind_eq_bind,
        Option.bind_some]
      simp only [Bool.false_eq_true, if_false, if_neg (Ne.symm hr), if_true]
      rw [hrun₁, Option.bind_eq_bind, Option.bind_some, hrun₂, Option.bind_some, hnode.parent, hw,
        Option.bind_eq_bind, Option.bind_some, ← hm₃, Option.bind_some, hchild, hrun₅]
      rfl
    · rw [hv₅]
      simp [hm₃, slot, hne, hdw, Ne.symm hne, hnode.slibling]

/-- **The children taken from the source node**: they are stripped from the tree, and the node is
left without them. -/
lemma stripChildren_spec (h : Represents m a) (hv : v ∈ (a i).nodes) {x : NodeId}
    (hx : (m.node v).pnodeChild = some x) (hn : (a i).nodes.length ≤ n) :
    ∃ m₁, simpleTreeStripGroup n m i x = some m₁ ∧
      Represents ((m₁.setChild v none).setChildren v 0)
        (Function.update a i (childless v (a i))) ∧
      Linked m₁ (some v) none none ((a i).childrenAt (here v)) ∧
      ((a i).childrenAt (here v)).rootValue = some x ∧
      (m₁.node v).nodeChildren = ((a i).childrenAt (here v)).length ∧
      ((a i).childrenAt (here v)).nodes.Nodup ∧ v ∉ ((a i).childrenAt (here v)).nodes ∧
      (∀ u ∉ ((a i).childrenAt (here v)).nodes, m₁.node u = m.node u) ∧
      (∀ j, (m₁.tree j).root = (m.tree j).root) ∧
      ∀ j, ∀ u ∈ (Function.update a i (childless v (a i)) j).nodes,
        u ∉ ((a i).childrenAt (here v)).nodes := by
  obtain ⟨C, c, s, L⟩ := h.located hv
  rw [L.childrenAt, L.childless]
  obtain ⟨⟨hvc, hvs⟩, hdc, hds, hcs⟩ := nodup_node.1 L.nodup
  have hlen := L.length_le
  have hnode := L.linked.1
  have hroot : c.rootValue = some x := hnode.child.symm.trans hx
  obtain ⟨m₁, hrun₁, h₁⟩ := stripChild_spec (n := n)
    (L.linked.2.1.loose fun u _ => (rfl : SameLinks (m.node u) (m.node u))) hdc (by omega) i
  rw [hroot] at hrun₁
  have hcount : (m.tree i).nodesNum = (a i).nodes.length := h.nodesNum i
  refine ⟨m₁, hrun₁, h.empty L ?_ (fun u huv huc => ?_) ?_ ?_ fun j hj => ?_,
    L.linked.2.1.loose fun u _ => h₁.same u, hroot, ?_, hdc, hvc, h₁.out, fun j => ?_,
    fun j u hu huc => ?_⟩
  · simp [h₁.out v hvc]
  · simp [huv, h₁.out u huc]
  · simp [h₁.tree]
  · simp only [Memory.setChildren, Memory.setChild, Memory.modify_tree, h₁.tree, if_pos]
    omega
  · simp [h₁.tree, hj]
  · rw [h₁.out v hvc, hnode.children]
  · rw [h₁.tree]
    by_cases hj : j = i <;> simp [hj]
  · by_cases hj : j = i
    · rw [hj, Function.update_self, Ctx.mem_fill, nodes_node, nodes_nil, List.nil_append,
        List.mem_cons] at hu
      rcases hu with hu | rfl | hu
      · exact L.apart u hu (by simp [huc])
      · exact hvc huc
      · exact hcs u huc hu
    · rw [Function.update_of_ne hj] at hu
      refine h.apart j i hj u hu ?_
      rw [L.tree, Ctx.mem_fill]
      exact .inr (by simp [huc])

/-- What is not below a node stays when the node loses its children. -/
lemma mem_childless (h : Represents m a) (hw : w ∈ (a j).nodes) (hv : v ∈ (a i).nodes)
    (hc : w ∉ ((a i).childrenAt (here v)).nodes) :
    w ∈ (Function.update a i (childless v (a i)) j).nodes := by
  by_cases hj : j = i
  · subst hj
    obtain ⟨C, c, s, L⟩ := h.located hv
    rw [L.childrenAt] at hc
    rw [L.tree, Ctx.mem_fill, nodes_node, List.mem_cons, List.mem_append] at hw
    rw [Function.update_self, L.childless, Ctx.mem_fill, nodes_node, nodes_nil, List.nil_append,
      List.mem_cons]
    tauto
  · rwa [Function.update_of_ne hj]

lemma length_childless_le (h : Represents m a) (hv : v ∈ (a i).nodes) :
    (Function.update a i (childless v (a i)) j).nodes.length ≤ (a j).nodes.length := by
  by_cases hj : j = i
  · subst hj
    obtain ⟨C, c, s, L⟩ := h.located hv
    rw [Function.update_self, L.childless, Ctx.length_nodes_fill, ← L.length_le, nodes_node,
      List.length_cons, List.length_append, nodes_nil, List.length_nil]
    omega
  · rw [Function.update_of_ne hj]

/-- A node without children has none to move. -/
lemma childrenAt_eq_nil_of_child (h : Represents m a) (hv : v ∈ (a i).nodes)
    (hc : (m.node v).pnodeChild = none) : (a i).childrenAt (here v) = .nil := by
  obtain ⟨C, c, s, L⟩ := h.located hv
  rw [L.childrenAt]
  rw [L.linked.1.child] at hc
  cases c with
  | nil => rfl
  | node => simp at hc

lemma Represents.moveNothing {td ts : TreeId} {dst src : NodeId} (h : Represents m a)
    (hdst : dst ∈ (a td).nodes) (hsrc : src ∈ (a ts).nodes)
    (hc : (a ts).childrenAt (here src) = .nil) :
    Represents m (Function.update (Function.update a ts (childless src (a ts))) td
      (place opt dst ((a ts).childrenAt (here src))
        (Function.update a ts (childless src (a ts)) td))) := by
  obtain ⟨C, c, s, L⟩ := h.located hdst
  obtain ⟨C', c', s', L'⟩ := h.located hsrc
  have hself : childless src (a ts) = a ts := by
    rw [L'.childrenAt] at hc
    rw [L'.childless, L'.tree, hc]
  rw [hself, Function.update_eq_self, hc, L.place_nil, Function.update_eq_self]
  exact h

lemma exists_eq_node {x : NodeId} (h : t.rootValue = some x) : ∃ c s, t = node x c s := by
  cases t with
  | nil => simp at h
  | node y c s => exact ⟨c, s, by rw [Option.some.inj h]⟩

/-- **The children get another parent**, which counts them. -/
lemma adoptChildren {x p : NodeId} (hl : Linked m (some v) none none t)
    (hroot : t.rootValue = some x) (hd : t.nodes.Nodup) (hv : v ∉ t.nodes) (hp : p ∉ t.nodes)
    (hpv : p ≠ v) (hcount : (m.node v).nodeChildren = t.length) (hn : t.nodes.length < n) :
    ∃ m₄ l, setParents n (((m.setChild v none).addChildren p
        ((m.setChild v none).node v).nodeChildren).setChildren v 0) x (some p) = some (m₄, l) ∧
      t.lastValue = some l ∧ Linked m₄ (some p) none none t ∧ m₄.tree = m.tree ∧
      ∀ u ∉ t.nodes, m₄.node u = if u = p then
          { ((m.setChild v none).setChildren v 0).node u with
            nodeChildren := (((m.setChild v none).setChildren v 0).node u).nodeChildren + t.length }
        else ((m.setChild v none).setChildren v 0).node u := by
  obtain ⟨c₁, s₁, rfl⟩ := exists_eq_node hroot
  have hlen := s₁.length_le_nodes
  rw [nodes_node, List.length_cons, List.length_append] at hn
  have hl₃ : Linked (((m.setChild v none).addChildren p
      ((m.setChild v none).node v).nodeChildren).setChildren v 0) (some v) none none
      (node x c₁ s₁) := by
    refine hl.congr fun u hu => ?_
    simp [ne_of_mem_of_not_mem hu hv, ne_of_mem_of_not_mem hu hp]
  obtain ⟨m₄, l, hrun₄, hlast, hl₄, htree₄, hout₄⟩ :=
    setParents_spec (n := n) hl₃ hd (by omega) (some p)
  refine ⟨m₄, l, hrun₄, hlast, hl₄, htree₄, fun u hu => ?_⟩
  rw [hout₄ u hu]
  by_cases hup : u = p
  · simp [hup, hpv, hcount]
  · by_cases huv : u = v <;> simp [hup, huv, Ne.symm hpv]

theorem moveChildrenToChild_spec {td ts : TreeId} {dst src : NodeId} (h : Represents m a)
    (hdst : dst ∈ (a td).nodes) (hsrc : src ∈ (a ts).nodes) (hne : dst ≠ src)
    (hanc : dst ∉ ((a td).childrenAt (here src)).nodes)
    (hopt : opt = .addFirst ∨ opt = .addLast)
    (hlast : opt = .addLast → ((a td).childrenAt (here dst)).length ≠ 1)
    (hfirst : opt = .addFirst → (a td).childrenAt (here dst) ≠ .nil →
      ((a ts).childrenAt (here src)).length ≠ 1)
    (hn : (a td).nodes.length + (a ts).nodes.length < n) :
    ∃ m', simpleTreeMoveChildrenToChild n m td dst ts src opt = some (m', true) ∧
      Represents m' (Function.update (Function.update a ts (childless src (a ts))) td
        (place opt dst ((a ts).childrenAt (here src))
          (Function.update a ts (childless src (a ts)) td))) := by
  have hmet := meetsAbove_eq_false (n := n) h hdst hanc (by omega)
  have hguard : ¬ (opt ≠ .addFirst ∧ opt ≠ .addLast) := by
    rcases hopt with rfl | rfl <;> simp
  cases hx : (m.node src).pnodeChild with
  | none =>
    have hc := childrenAt_eq_nil_of_child h hsrc hx
    refine ⟨m, ?_, ?_⟩
    · rw [simpleTreeMoveChildrenToChild, if_neg hguard, if_neg hne, hmet, Option.bind_eq_bind,
        Option.bind_some]
      simp only [Bool.false_eq_true, if_false, hx]
    · exact h.moveNothing hdst hsrc hc
  | some x =>
    obtain ⟨m₁, hrun₁, h₂, hl₁, hroot, hcount, hdc, hst, hout₁, -, hfree⟩ :=
      stripChildren_spec (n := n) h hsrc hx (by omega)
    have hdst₂ := mem_childless h hdst hsrc (notMem_childrenAt h hdst hanc hsrc)
    have hlen₁ := length_childless_le (j := td) h hsrc
    have hlent := length_childrenAt_lt h hsrc
    set a₁ := Function.update a ts (childless src (a ts)) with ha₁
    set t := (a ts).childrenAt (here src) with ht
    set m₂ := (m₁.setChild src none).setChildren src 0 with hm₂
    obtain ⟨C, c, s, L⟩ := h₂.located hdst₂
    have hlen := L.length_le
    have hnode := L.linked.1
    have hdt : dst ∉ t.nodes := hfree td dst hdst₂
    set m₃ := ((m₁.setChild src none).addChildren dst
      ((m₁.setChild src none).node src).nodeChildren).setChildren src 0 with hm₃
    obtain ⟨c₁, s₁, htx⟩ := exists_eq_node hroot
    obtain ⟨m₄, l, hrun₄, hl, hl₄, htree₄, h₄⟩ :=
      adoptChildren (n := n) hl₁ hroot hdc hst hdt hne hcount (by omega)
    rw [← hm₂] at h₄
    have hchild₄ : (m₄.node dst).pnodeChild = c.rootValue := by
      rw [h₄ dst hdt, if_pos rfl, hnode.child]
    have hrun : simpleTreeMoveChildrenToChild n m td dst ts src opt =
        c.rootValue.elim
          ((simpleTreeCohereGroup n (m₄.setChild dst (some x)) td x).bind fun m =>
            some (m, true))
          fun temp => if opt = .addLast then
            (findLast n m₄ temp none).bind fun last => last.bind fun last =>
              (simpleTreeCohereGroup n (m₄.setSlibling last (some x)) td x).bind fun m =>
                some (m, true)
          else (findLast n m₄ x none).bind fun last => (simpleTreeCohereGroup n m₄ td x).bind
            fun m => last.bind fun last =>
              some ((m.setSlibling last (m.node dst).pnodeChild).setChild dst (some x), true) := by
      rw [simpleTreeMoveChildrenToChild, if_neg hguard, if_neg hne, hmet, Option.bind_eq_bind,
        Option.bind_some]
      simp only [Bool.false_eq_true, if_false, hx]
      rw [hrun₁, Option.bind_eq_bind, Option.bind_some, ← hm₃, hrun₄, Option.bind_eq_bind,
        Option.bind_some]
      dsimp only
      rw [hchild₄]
      cases c.rootValue <;> rfl
    rw [hrun]
    cases c with
    | nil =>
      have hslot : slot opt C dst .nil s = (.down C dst s, .nil) := by
        rcases hopt with rfl | rfl <;> rfl
      obtain ⟨m₅, hrun₅, hlast₅, hout₅, hrep⟩ := h₂.hangGroup (n := n) L opt (by rw [hslot]; rfl)
        hl hdc hfree (q := m₄.setChild dst (some x))
        (hl₄.congr fun u hu => by simp [ne_of_mem_of_not_mem hu hdt]) (by simp [h₄ dst hdt])
        htree₄ (by omega)
      rw [hroot] at hrun₅ hrep
      refine ⟨m₅, ?_, hrep m₅ rfl (eq_with_slibling ?_) (fun u _ _ => rfl) fun u hu => ?_⟩
      · change Option.bind (cohereChild n _ td (some x)) _ = _
        rw [hrun₅]
        rfl
      · rw [hlast₅, hslot]
        rfl
      · rw [hout₅ u hu, hslot, relink_child (w := dst) rfl, Memory.setChild, Memory.modify_node,
          h₄ u hu]
        by_cases hud : u = dst <;> simp [hud]
    | node temp c' s' =>
      have hcount_dst : ((a td).childrenAt (here dst)).length = (node temp c' s').length := by
        obtain ⟨C₀, c₀, s₀, L₀⟩ := h.located hdst
        rw [L₀.childrenAt, ← L₀.linked.1.children, ← hnode.children, hm₂]
        simp [hne, hout₁ dst hdt]
      rcases hopt with rfl | rfl
      · -- The loop leaves `pnode_last` set, for there are two children at least to move.
        have hs₁ : s₁ ≠ .nil := by
          rintro rfl
          refine hfirst rfl (fun hnil => ?_) (by rw [htx]; rfl)
          rw [hnil, length_nil, length_node] at hcount_dst
          omega
        obtain ⟨m₅, hrun₅, hlast₅, hout₅, hrep⟩ := h₂.hangGroup (n := n) L .addFirst rfl hl hdc
          hfree hl₄ (by simp [h₄ dst hdt]) htree₄ (by omega)
        rw [hroot] at hrun₅ hrep
        refine ⟨(m₅.setSlibling l (some temp)).setChild dst (some x), ?_, hrep _ rfl ?_
          (fun u hu hul => ?_) fun u hu => ?_⟩
        · simp only [rootValue_node, Option.elim_some, reduceCtorEq, if_false]
          rw [findLast_eq (htx ▸ hl₄), lastValue_node (htx ▸ hl) hs₁]
          · rw [Option.bind_some]
            change Option.bind (cohereChild n _ td (some x)) _ = _
            rw [hrun₅, Option.bind_some, Option.some_or, Option.bind_some, hout₅ dst hdt, hchild₄]
            rfl
          · have := s₁.length_le_nodes
            rw [htx, nodes_node, List.length_cons, List.length_append] at hlent
            omega
        · have hld : l ≠ dst := fun hld => hdt (hld ▸ lastValue_mem hl)
          simp [hld, slot]
        · simp [hul, ne_of_mem_of_not_mem hu hdt]
        · have hul : u ≠ l := fun hul => hu (hul ▸ lastValue_mem hl)
          rw [slot, relink_child (w := dst) rfl, Memory.setChild, Memory.modify_node,
            Memory.setSlibling, Memory.modify_node, if_neg hul, hout₅ u hu, h₄ u hu]
          by_cases hud : u = dst <;> simp [hud]
      · obtain ⟨l', hl'⟩ := exists_lastValue (t := node temp c' s') (by simp)
        have hs' : s' ≠ .nil := by
          rintro rfl
          exact hlast rfl hcount_dst
        have hl'mem : l' ∈ (a₁ td).nodes := by
          rw [L.tree, Ctx.mem_fill, nodes_node, List.mem_cons, List.mem_append]
          exact .inr (.inr (.inl (lastValue_mem hl')))
        have hl't : l' ∉ t.nodes := hfree td l' hl'mem
        have hcell : (slot .addLast C dst (node temp c' s') s).1.cell = .sibling l' :=
          Ctx.cell_past _ hl'
        have hparent : (slot .addLast C dst (node temp c' s') s).1.parent = some dst :=
          Ctx.parent_past _ _
        have hld := cell_ne_parent (L.nodup_slot h₂ _) hcell hparent
        obtain ⟨m₅, hrun₅, hlast₅, hout₅, hrep⟩ := h₂.hangGroup (n := n) L .addLast hparent hl hdc
          hfree (q := m₄.setSlibling l' (some x))
          (hl₄.congr fun u hu => by simp [ne_of_mem_of_not_mem hu hl't])
          (by simp [Ne.symm hld, h₄ dst hdt]) htree₄ (by omega)
        rw [hroot] at hrun₅ hrep
        refine ⟨m₅, ?_, hrep m₅ rfl (eq_with_slibling hlast₅) (fun u _ _ => rfl) fun u hu => ?_⟩
        · simp only [rootValue_node, Option.elim_some, if_true]
          have hc : Linked m₄ (some dst) (some (C.depth + 1)) none (node temp c' s') := by
            refine L.linked.2.1.congr fun u hu => ?_
            have hut : u ∉ t.nodes := by
              refine hfree td u ?_
              rw [L.tree, Ctx.mem_fill, nodes_node, List.mem_cons, List.mem_append]
              exact .inr (.inr (.inl hu))
            rw [h₄ u hut, if_neg (ne_of_mem_of_not_mem hu (nodup_node.1 L.nodup).1.1)]
          rw [findLast_eq hc, lastValue_node hl' hs']
          · rw [Option.bind_some, Option.some_or, Option.bind_some]
            change Option.bind (cohereChild n _ td (some x)) _ = _
            rw [hrun₅]
            rfl
          · have := s'.length_le_nodes
            rw [nodes_node, List.length_cons, List.length_append] at hlen
            omega
        · rw [hout₅ u hu, relink_sibling (L.nodup_slot h₂ _) hcell hparent, Memory.setSlibling,
            Memory.modify_node, h₄ u hu]
          by_cases hul : u = l'
          · simp [hul, hld]
          · by_cases hud : u = dst <;> simp [hul, hud, Ne.symm hld]

theorem moveChildrenToSlibling_spec {td ts : TreeId} {dst src : NodeId} (h : Represents m a)
    (hdst : dst ∈ (a td).nodes) (hsrc : src ∈ (a ts).nodes)
    (hanc : dst ∉ ((a td).childrenAt (here src)).nodes) (hr : (m.tree td).root ≠ some dst)
    (hopt : opt = .insertBefore ∨ opt = .insertAfter)
    (hn : (a td).nodes.length + (a ts).nodes.length < n) :
    ∃ m', simpleTreeMoveChildrenToSlibling n m td dst ts src opt = some (m', true) ∧
      Represents m' (Function.update (Function.update a ts (childless src (a ts))) td
        (place opt dst ((a ts).childrenAt (here src))
          (Function.update a ts (childless src (a ts)) td))) := by
  have hguard : ¬ (opt ≠ .insertBefore ∧ opt ≠ .insertAfter) := by
    rcases hopt with rfl | rfl <;> simp
  obtain ⟨C₀, c₀, s₀, L₀⟩ := h.located hdst
  have hanc' := L₀.notMem_ancestors hanc (h.nodup td)
  obtain ⟨w, hw₀⟩ := L₀.exists_parent h hr
  have hws : w ≠ src := fun hws => hanc' (hws ▸ Ctx.parent_mem_ancestors hw₀)
  have hmet := meetsAbove_eq_false (n := n) h hdst hanc (by omega)
  cases hx : (m.node src).pnodeChild with
  | none =>
    have hc := childrenAt_eq_nil_of_child h hsrc hx
    refine ⟨m, ?_, ?_⟩
    · rw [simpleTreeMoveChildrenToSlibling, if_neg (Ne.symm hr), if_neg hguard, hmet,
        Option.bind_eq_bind, Option.bind_some]
      simp only [Bool.false_eq_true, if_false, hx]
    · exact h.moveNothing hdst hsrc hc
  | some x =>
    obtain ⟨m₁, hrun₁, h₂, hl₁, hroot, hcount, hdc, hst, hout₁, hroot₁, hfree⟩ :=
      stripChildren_spec (n := n) h hsrc hx (by omega)
    have hdst₂ := mem_childless h hdst hsrc (notMem_childrenAt h hdst hanc hsrc)
    have hlen₁ := length_childless_le (j := td) h hsrc
    have hlent := length_childrenAt_lt h hsrc
    set a₁ := Function.update a ts (childless src (a ts)) with ha₁
    set t := (a ts).childrenAt (here src) with ht
    set m₂ := (m₁.setChild src none).setChildren src 0 with hm₂
    obtain ⟨C, c, s, L⟩ := h₂.located hdst₂
    have hlen := L.length_le
    have hnode := L.linked.1
    have hdt : dst ∉ t.nodes := hfree td dst hdst₂
    obtain ⟨w', hw⟩ := L.exists_parent h₂ (by simpa [hm₂, hroot₁] using hr)
    have hparent₁ : (m₁.node dst).pnodeParent = some w := by
      rw [hout₁ dst hdt, L₀.linked.1.parent, hw₀]
    obtain rfl : w' = w := by
      have := hnode.parent
      rw [hw] at this
      refine Option.some.inj (this.symm.trans ?_)
      by_cases hds : dst = src <;> simp [hm₂, hds, ← hparent₁]
    have hwt : w' ∉ t.nodes := hfree td w' (L.mem_of_around (Ctx.parent_mem hw))
    set m₃ := ((m₁.setChild src none).addChildren w'
      ((m₁.setChild src none).node src).nodeChildren).setChildren src 0 with hm₃
    obtain ⟨m₄, l, hrun₄, hl, hl₄, htree₄, h₄⟩ :=
      adoptChildren (n := n) hl₁ hroot hdc hst hwt hws hcount (by omega)
    rw [← hm₂] at h₄
    obtain ⟨m₅, hrun₅, h₅, hl₅⟩ := cohereChild_spec (n := n) hl₄ hdc hwt (by omega) td
    rw [hroot] at hrun₅
    have hdepth : (m₄.node w').nodeDepth + 1 = C.depth := by
      rw [h₄ w' hwt, if_pos rfl]
      exact L.around.depth hw
    rw [hdepth] at hl₅
    obtain ⟨m₆, hrun₆, hrep⟩ := linkBeside_spec (n := n) h₂ L hw hopt hroot hl hdc hfree
      hl₅ (fun u hu => by rw [h₅.out u hu, h₄ u hu]) (by rw [h₅.tree, htree₄]; rfl) (by omega)
    refine ⟨m₆, ?_, hrep⟩
    have hparent : ((m₁.setChild src none).node dst).pnodeParent = some w' := by
      by_cases hds : dst = src <;> simp [hds, ← hparent₁]
    rw [simpleTreeMoveChildrenToSlibling, if_neg (Ne.symm hr), if_neg hguard, hmet,
      Option.bind_eq_bind, Option.bind_some]
    simp only [Bool.false_eq_true, if_false, hx]
    rw [hrun₁, Option.bind_eq_bind, Option.bind_some, hparent, Option.bind_eq_bind,
      Option.bind_some, ← hm₃, hrun₄, Option.bind_eq_bind, Option.bind_some]
    change Option.bind (cohereChild n m₄ td (some x)) _ = _
    rw [hrun₅]
    exact hrun₆

end SteepSystem.SimpleTrees
