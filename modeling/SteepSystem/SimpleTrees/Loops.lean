import SteepSystem.SimpleTrees.Links

/-!
The loops of the source over a group and over the nodes below it, on a memory that links the
group: what each returns and what it leaves alone.
-/

namespace SteepSystem.SimpleTrees

open SteepSystem.Lib SteepSystem.Lib.Forest

namespace Memory

variable (m : Memory) (u v : NodeId) (f : SimpleTreeNode → SimpleTreeNode)
  (g : SimpleTree → SimpleTree) (i j : TreeId)

@[simp] lemma modify_node :
    (m.modify v f).node u = if u = v then f (m.node u) else m.node u := rfl

@[simp] lemma modify_tree : (m.modify v f).tree = m.tree := rfl

@[simp] lemma modifyTree_node : (m.modifyTree i g).node = m.node := rfl

@[simp] lemma modifyTree_tree :
    (m.modifyTree i g).tree j = if j = i then g (m.tree j) else m.tree j := rfl

attribute [simp] set setSlibling setChild setParent setDepth setChildren addChildren subChildren
  setRoot setNum addNum subNum

end Memory

variable {m m' : Memory} {p next x : Option NodeId} {d : Option ℕ} {t s c : Forest NodeId}
  {v w b : NodeId} {C D : Ctx NodeId} {k n : ℕ} {i : TreeId}

/-- A memory that links the nodes around a place to their siblings as another does. -/
def SameSliblings (m m' : Memory) (C : Ctx NodeId) : Prop :=
  ∀ u ∈ C.nodes, (m'.node u).pnodeSlibling = (m.node u).pnodeSlibling

lemma findPrev_first (h : LinkedAround m C (some w) k) (hs : SameSliblings m m' C)
    (hb : b ∉ C.nodes) (hw : w ≠ b) {x₀ : NodeId} (hx : C.first (some w) = some x₀) (n : ℕ) :
    findPrev (n + C.before) m' x₀ b = findPrev n m' w b := by
  induction C generalizing w k n with
  | top =>
    obtain rfl := Option.some.inj hx
    rfl
  | down C v s ih =>
    obtain rfl := Option.some.inj hx
    rfl
  | right C v c ih =>
    simp only [Ctx.nodes, List.mem_cons, List.mem_append, not_or] at hb
    simp only [SameSliblings, Ctx.nodes, List.forall_mem_cons, List.forall_mem_append] at hs
    rw [Ctx.before, ← Nat.add_assoc, Nat.add_right_comm,
      ih h.2.2 hs.2.2 hb.2.2 (Ne.symm hb.1) hx (n + 1), findPrev, hs.1, h.1.slibling,
      if_neg (by simpa using hw)]
    rfl

/-- The loop for the node before `b` finds the sibling that is linked to it. -/
lemma findPrev_right (h : LinkedAround m (.right C v c) (some b) k)
    (hs : SameSliblings m m' (.right C v c)) (hb : b ∉ (Ctx.right C v c).nodes) {x₀ : NodeId}
    (hx : (Ctx.right C v c).first (some b) = some x₀)
    (hn : (Ctx.right C v c).before ≤ n) : findPrev n m' x₀ b = some v := by
  simp only [Ctx.nodes, List.mem_cons, List.mem_append, not_or] at hb
  simp only [SameSliblings, Ctx.nodes, List.forall_mem_cons, List.forall_mem_append] at hs
  rw [Ctx.before] at hn
  obtain ⟨l, rfl⟩ : ∃ l, n = l + 1 + C.before := ⟨n - 1 - C.before, by omega⟩
  rw [findPrev_first h.2.2 hs.2.2 hb.2.2 (Ne.symm hb.1) hx, findPrev, hs.1, h.1.slibling,
    if_pos rfl]

/-- Where the source looks for the link to a node `b`: at the parent, when `b` is the first child
there, or at the sibling that the loop finds. -/
lemma LinkedAround.link_cases (h : LinkedAround m C (some b) k) (hb : b ∉ C.nodes)
    (hp : C.parent = some v) (hn : C.nodes.length ≤ n) :
    (C.cell = .child v ∧ (m.node v).pnodeChild = some b) ∨
    ∃ w x₀, C.cell = .sibling w ∧ w ∈ C.nodes ∧ (m.node v).pnodeChild = some x₀ ∧ x₀ ≠ b ∧
      ∀ m', SameSliblings m m' C → findPrev n m' x₀ b = some w := by
  have hfirst := h.first hp
  cases C with
  | top => simp [Ctx.parent] at hp
  | down C u s =>
    obtain rfl := Option.some.inj hp
    exact .inl ⟨rfl, hfirst⟩
  | right C u c =>
    obtain ⟨x₀, hx, hmem⟩ := (Ctx.right C u c).exists_first b
    right
    refine ⟨u, x₀, rfl, by simp [Ctx.nodes], hfirst.trans hx, ?_, fun m' hs =>
      findPrev_right h hs hb hx (((Ctx.right C u c).before_le).trans hn)⟩
    rintro rfl
    obtain ⟨y, hy, hym⟩ := C.exists_first u
    rw [show (Ctx.right C u c).first (some x₀) = C.first (some u) from rfl, hy] at hx
    obtain rfl := Option.some.inj hx
    refine hb ?_
    rcases hym with rfl | hym
    · simp [Ctx.nodes]
    · simp [Ctx.nodes, hym]

/-- The loop to the end of a group. -/
lemma findLast_eq (h : Linked m p d none (.node v c s)) {last : Option NodeId}
    (hn : s.length < n) : findLast n m v last = some (s.lastValue.or last) := by
  induction s generalizing v c n last with
  | nil =>
    obtain ⟨n, rfl⟩ : ∃ l, n = l + 1 := ⟨n - 1, by omega⟩
    rw [findLast, h.1.slibling]
    rfl
  | node w c' s _ ih =>
    rw [length_node] at hn
    obtain ⟨n, rfl⟩ : ∃ l, n = l + 1 := ⟨n - 1, by omega⟩
    rw [findLast, h.1.slibling]
    refine (ih h.2.2 (by omega)).trans ?_
    rw [lastValue]
    cases s.lastValue <;> rfl

lemma meetsParent_succ (n : ℕ) (m : Memory) (v w : NodeId) :
    meetsParent (n + 1) m v w = if v = w then some true else meetsAbove n m v w := rfl

/-- The loop up the parents meets the nodes above a place. -/
lemma meetsAbove_eq (h : LinkedAround m C x k) (hv : (m.node v).pnodeParent = C.parent)
    (hn : C.nodes.length ≤ n) : meetsAbove n m v w = some (decide (w ∈ C.ancestors)) := by
  induction C generalizing x k v n with
  | top =>
    rw [meetsAbove, hv]
    rfl
  | down C u s ih =>
    rw [Ctx.nodes, List.length_cons, List.length_append] at hn
    obtain ⟨n, rfl⟩ : ∃ l, n = l + 1 := ⟨n - 1, by omega⟩
    rw [meetsAbove, hv]
    change meetsParent (n + 1) m u w = _
    rw [meetsParent_succ, ih h.2.2 h.1.parent (by omega), Ctx.ancestors]
    by_cases hu : u = w
    · simp [hu]
    · simp [hu, Ne.symm hu]
  | right C u c ih =>
    rw [Ctx.nodes, List.length_cons, List.length_append] at hn
    exact ih h.2.2 hv (by omega)

lemma nodup_node {α : Type*} {v : α} {c s : Forest α} : (node v c s).nodes.Nodup ↔
    (v ∉ c.nodes ∧ v ∉ s.nodes) ∧ c.nodes.Nodup ∧ s.nodes.Nodup ∧ ∀ x ∈ c.nodes, x ∉ s.nodes := by
  rw [nodes_node, List.nodup_cons, List.nodup_append', List.mem_append, not_or]
  rfl

/-- A group under a new parent, and what the loop returns as its last node. -/
lemma setParents_spec (h : Linked m p d none (.node v c s)) (hd : (node v c s).nodes.Nodup)
    (hn : s.length < n) (q : Option NodeId) :
    ∃ m' l, setParents n m v q = some (m', l) ∧ (node v c s).lastValue = some l ∧
      Linked m' q d none (.node v c s) ∧ m'.tree = m.tree ∧
      ∀ u ∉ (node v c s).nodes, m'.node u = m.node u := by
  induction s generalizing v c m n with
  | nil =>
    obtain ⟨n, rfl⟩ : ∃ l, n = l + 1 := ⟨n - 1, by omega⟩
    obtain ⟨⟨hvc, -⟩, -⟩ := nodup_node.1 hd
    refine ⟨m.setParent v q, v, ?_, rfl, ⟨?_, ?_, trivial⟩, rfl, ?_⟩
    · simp [setParents, Memory.setParent, h.1.slibling]
    · simp only [Memory.setParent, Memory.modify_node, if_pos]
      exact ⟨h.1.slibling, h.1.child, rfl, h.1.depth, h.1.children⟩
    · refine h.2.1.congr fun u hu => ?_
      simp [Memory.setParent, ne_of_mem_of_not_mem hu hvc]
    · intro u hu
      simp only [nodes_node, List.mem_cons, not_or] at hu
      simp [Memory.setParent, hu.1]
  | node w c' s' _ ih =>
    rw [length_node] at hn
    obtain ⟨n, rfl⟩ : ∃ l, n = l + 1 := ⟨n - 1, by omega⟩
    obtain ⟨⟨hvc, hvs⟩, hdc, hds, hcs⟩ := nodup_node.1 hd
    have hsame : ∀ u ≠ v, (m.setParent v q).node u = m.node u := by
      intro u hu
      simp [Memory.setParent, hu]
    obtain ⟨m', l, hrun, hl, hlinked, htree, hout⟩ := ih (m := m.setParent v q) (n := n)
      (h.2.2.congr fun u hu => hsame u (ne_of_mem_of_not_mem hu hvs)) hds (by omega)
    refine ⟨m', l, ?_, ?_, ⟨?_, ?_, hlinked⟩, htree, ?_⟩
    · rw [← hrun]
      simp [setParents, Memory.setParent, h.1.slibling]
    · rw [lastValue, hl]
      rfl
    · rw [hout v hvs]
      simp only [Memory.setParent, Memory.modify_node, if_pos]
      exact ⟨h.1.slibling, h.1.child, rfl, h.1.depth, h.1.children⟩
    · refine h.2.1.congr fun u hu => ?_
      rw [hout u (hcs u hu), hsame u (ne_of_mem_of_not_mem hu hvc)]
    · intro u hu
      rw [nodes_node, List.mem_cons, List.mem_append] at hu
      rw [hout u fun h => hu (.inr (.inr h)), hsame u fun h => hu (.inl h)]

/-- What a loop over a group of `t` does to the memory when it moves depths only: the tree `i`
counts `f` of what it did, and what is not in the group stays as it is. -/
structure Redeepened (m m' : Memory) (i : TreeId) (f : ℕ → ℕ) (t : Forest NodeId) : Prop where
  same : ∀ u, SameLinks (m.node u) (m'.node u)
  out : ∀ u ∉ t.nodes, m'.node u = m.node u
  tree : m'.tree = fun j =>
    if j = i then { m.tree j with nodesNum := f (m.tree j).nodesNum } else m.tree j

lemma SameLinks.trans {r r' r'' : SimpleTreeNode} (h : SameLinks r r') (h' : SameLinks r' r'') :
    SameLinks r r'' := by
  unfold SameLinks at *
  rw [← h, ← h']

lemma SameLinks.slibling {r r' : SimpleTreeNode} (h : SameLinks r r') :
    r'.pnodeSlibling = r.pnodeSlibling := by
  rw [← h]

lemma SameLinks.child {r r' : SimpleTreeNode} (h : SameLinks r r') :
    r'.pnodeChild = r.pnodeChild := by
  rw [← h]

lemma SameLinks.parent {r r' : SimpleTreeNode} (h : SameLinks r r') :
    r'.pnodeParent = r.pnodeParent := by
  rw [← h]

lemma SameLinks.children {r r' : SimpleTreeNode} (h : SameLinks r r') :
    r'.nodeChildren = r.nodeChildren := by
  rw [← h]

lemma Redeepened.refl (m : Memory) (i : TreeId) {f : ℕ → ℕ} (hf : ∀ k, f k = k) :
    Redeepened m m i f nil := by
  refine ⟨fun u => rfl, fun u _ => rfl, ?_⟩
  funext j
  simp [hf]

lemma Redeepened.trans {m m₁ m₂ : Memory} {f g h : ℕ → ℕ} {t₁ t₂ : Forest NodeId}
    (h₁ : Redeepened m m₁ i f t₁) (h₂ : Redeepened m₁ m₂ i g t₂) (hh : ∀ k, h k = g (f k))
    (hm₁ : ∀ u ∈ t₁.nodes, u ∈ t.nodes) (hm₂ : ∀ u ∈ t₂.nodes, u ∈ t.nodes) :
    Redeepened m m₂ i h t := by
  refine ⟨fun u => (h₁.same u).trans (h₂.same u), fun u hu => ?_, ?_⟩
  · rw [h₂.out u fun h => hu (hm₂ u h), h₁.out u fun h => hu (hm₁ u h)]
  · rw [h₂.tree, h₁.tree]
    funext j
    by_cases hj : j = i <;> simp [hj, hh]

lemma Redeepened.node (m : Memory) (i : TreeId) (v : NodeId) (e : ℕ) :
    Redeepened m (m.setDepth v e) i id (.node v .nil .nil) := by
  refine ⟨fun u => ?_, fun u hu => ?_, ?_⟩
  · by_cases hu : u = v <;> simp [SameLinks, Memory.setDepth, hu]
  · simp only [nodes_node, nodes_nil, List.append_nil, List.mem_singleton] at hu
    simp [Memory.setDepth, hu]
  · funext j
    simp [Memory.setDepth]

lemma Redeepened.num (m : Memory) (i : TreeId) (f : ℕ → ℕ) :
    Redeepened m (m.modifyTree i fun r => { r with nodesNum := f r.nodesNum }) i f nil :=
  ⟨fun _ => rfl, fun _ _ => rfl, rfl⟩

lemma stripChild_match (n : ℕ) (m : Memory) (i : TreeId) (o : Option NodeId) : (match o with
    | none => some m
    | some child => simpleTreeStripGroup n m i child) = stripChild n m i o := by
  cases o <;> rfl

lemma stripGroup_succ (n : ℕ) (m : Memory) (i : TreeId) (v : NodeId) :
    simpleTreeStripGroup (n + 1) m i v =
      (stripChild n m i (m.node v).pnodeChild).bind fun m =>
        stripChild n ((m.setDepth v 0).subNum i 1) i
          (((m.setDepth v 0).subNum i 1).node v).pnodeSlibling := by
  rw [simpleTreeStripGroup]
  cases hc : (m.node v).pnodeChild with
  | none => exact stripChild_match _ _ _ _
  | some child =>
    refine congrArg (simpleTreeStripGroup n m i child).bind (funext fun m => ?_)
    exact stripChild_match _ _ _ _

/-- A group of a tree, stripped. -/
lemma stripChild_spec (h : Linked m p none none t) (hd : t.nodes.Nodup)
    (hn : t.nodes.length ≤ n) (i : TreeId) :
    ∃ m', stripChild n m i t.rootValue = some m' ∧
      Redeepened m m' i (· - t.nodes.length) t := by
  induction t generalizing m p n with
  | nil => exact ⟨m, rfl, .refl m i fun k => rfl⟩
  | node v c s ihc ihs =>
    obtain ⟨⟨hvc, hvs⟩, hdc, hds, hcs⟩ := nodup_node.1 hd
    rw [nodes_node, List.length_cons, List.length_append] at hn
    obtain ⟨n, rfl⟩ : ∃ l, n = l + 1 := ⟨n - 1, by omega⟩
    -- The nodes below go first, then the node itself, then its siblings.
    obtain ⟨m₁, hrun₁, h₁⟩ := ihc (n := n) h.2.1 hdc (by omega)
    have h₂ : Redeepened m ((m₁.setDepth v 0).subNum i 1) i (· - c.nodes.length - 1)
        (.node v c .nil) :=
      (h₁.trans (.node m₁ i v 0) (fun k => rfl) (t := .node v c .nil) (by simp +contextual)
        (by simp)).trans (.num _ i (· - 1)) (fun k => rfl) (by simp) (by simp)
    obtain ⟨m₃, hrun₃, h₃⟩ := ihs (n := n) (h.2.2.loose fun u _ => h₂.same u) hds (by omega)
    refine ⟨m₃, ?_, h₂.trans h₃ (fun k => ?_) (by simp +contextual) (by simp +contextual)⟩
    · change simpleTreeStripGroup (n + 1) m i v = _
      rw [stripGroup_succ, h.1.child, hrun₁, Option.bind_some, ← hrun₃]
      have hnext := (h₂.same v).slibling
      rw [h.1.slibling, Option.or_none] at hnext
      exact congrArg _ hnext
    · simp only [nodes_node, List.length_cons, List.length_append]
      omega

lemma cohereChild_match (n : ℕ) (m : Memory) (i : TreeId) (o : Option NodeId) : (match o with
    | none => some m
    | some child => simpleTreeCohereGroup n m i child) = cohereChild n m i o := by
  cases o <;> rfl

lemma cohereGroup_succ (n : ℕ) (m : Memory) (i : TreeId) (v : NodeId) :
    simpleTreeCohereGroup (n + 1) m i v =
      (m.node v).pnodeParent.bind fun q =>
        (cohereChild n (m.setDepth v ((m.node q).nodeDepth + 1)) i
          ((m.setDepth v ((m.node q).nodeDepth + 1)).node v).pnodeChild).bind fun m =>
            cohereChild n (m.addNum i 1) i ((m.addNum i 1).node v).pnodeSlibling := by
  rw [simpleTreeCohereGroup]
  refine congrArg _ (funext fun q => ?_)
  cases hc : ((m.setDepth v ((m.node q).nodeDepth + 1)).node v).pnodeChild with
  | none =>
    simp only [hc]
    exact cohereChild_match _ _ _ _
  | some child =>
    simp only [hc]
    refine congrArg _ (funext fun m => ?_)
    exact cohereChild_match _ _ _ _

/-- A group under its new parent, cohered: its depths count up from the parent's. -/
lemma cohereChild_spec {q : NodeId} (h : Linked m (some q) none none t) (hd : t.nodes.Nodup)
    (hq : q ∉ t.nodes) (hn : t.nodes.length ≤ n) (i : TreeId) :
    ∃ m', cohereChild n m i t.rootValue = some m' ∧
      Redeepened m m' i (· + t.nodes.length) t ∧
      Linked m' (some q) (some ((m.node q).nodeDepth + 1)) none t := by
  induction t generalizing m q n with
  | nil => exact ⟨m, rfl, .refl m i fun k => rfl, trivial⟩
  | node v c s ihc ihs =>
    obtain ⟨⟨hvc, hvs⟩, hdc, hds, hcs⟩ := nodup_node.1 hd
    simp only [nodes_node, List.length_cons, List.length_append] at hn
    simp only [nodes_node, List.mem_cons, List.mem_append, not_or] at hq
    obtain ⟨n, rfl⟩ : ∃ l, n = l + 1 := ⟨n - 1, by omega⟩
    set e := (m.node q).nodeDepth + 1 with he
    have h₁ := Redeepened.node m i v e
    have hv₁ : ((m.setDepth v e).node v).nodeDepth = e := by simp [Memory.setDepth]
    -- The node first, then those below it, then its siblings.
    obtain ⟨m₂, hrun₂, h₂, hl₂⟩ := ihc (n := n) (m := m.setDepth v e)
      (h.2.1.loose fun u _ => h₁.same u) hdc hvc (by omega)
    have h₁₂ : Redeepened m (m₂.addNum i 1) i (· + (c.nodes.length + 1)) (.node v c .nil) := by
      refine (h₁.trans h₂ (fun k => rfl) (t := .node v c .nil) (by simp) (by
        simp +contextual)).trans (.num m₂ i (· + 1)) (fun k => ?_) (by simp) (by simp)
      dsimp only [id]
      omega
    have hq₂ : (m₂.addNum i 1).node q = m.node q := by
      refine h₁₂.out q ?_
      simp [hq.1, hq.2.1]
    obtain ⟨m₃, hrun₃, h₃, hl₃⟩ := ihs (n := n) (h.2.2.loose fun u _ => h₁₂.same u) hds hq.2.2
      (by omega)
    refine ⟨m₃, ?_, h₁₂.trans h₃ (fun k => ?_) (by simp +contextual) (by simp +contextual),
      ?_, ?_, ?_⟩
    · change simpleTreeCohereGroup (n + 1) m i v = _
      have hnext := (h₁₂.same v).slibling
      rw [h.1.slibling, Option.or_none] at hnext
      rw [cohereGroup_succ, h.1.parent, Option.bind_some, ← he, (h₁.same v).child, h.1.child,
        hrun₂, Option.bind_some, hnext, hrun₃]
    · simp only [nodes_node, List.length_cons, List.length_append]
      omega
    · have hsame := ((h₁₂.trans h₃ (h := fun k => k + (c.nodes.length + 1) + s.nodes.length)
        (fun k => rfl) (t := .node v c s) (by simp +contextual) (by simp +contextual)).same v)
      have hdepth : (m₃.node v).nodeDepth = e := by
        rw [h₃.out v hvs]
        change (m₂.node v).nodeDepth = e
        rw [h₂.out v hvc, hv₁]
      refine ⟨hsame.slibling.trans h.1.slibling, hsame.child.trans h.1.child,
        hsame.parent.trans h.1.parent, ?_, hsame.children.trans h.1.children⟩
      rintro e' ⟨⟩
      exact hdepth
    · rw [hv₁] at hl₂
      exact hl₂.congr fun u hu => h₃.out u (hcs u hu)
    · rwa [hq₂] at hl₃

lemma destroyChild_match (n : ℕ) (m : Memory) (i : TreeId) (v : NodeId) (l : List NodeId)
    (o : Option NodeId) : (match o with
    | none => some (m, l ++ [v])
    | some next => do
      let (m, more) ← simpleTreeDestroyGroup n m i next
      some (m, l ++ v :: more)) =
      (destroyChild n m i o).map fun r' => (r'.1, l ++ v :: r'.2) := by
  cases o with
  | none => rfl
  | some next =>
    change Option.bind _ _ = Option.map _ (simpleTreeDestroyGroup n m i next)
    cases simpleTreeDestroyGroup n m i next <;> rfl

lemma destroyGroup_succ (n : ℕ) (m : Memory) (i : TreeId) (v : NodeId) :
    simpleTreeDestroyGroup (n + 1) m i v =
      (destroyChild n m i (m.node v).pnodeChild).bind fun r =>
        (destroyChild n ((r.1.set v ⟨none, none, none, 0, 0⟩).subNum i 1) i
          (r.1.node v).pnodeSlibling).map fun r' => (r'.1, r.2 ++ v :: r'.2) := by
  rw [simpleTreeDestroyGroup]
  cases hc : (m.node v).pnodeChild with
  | none => exact destroyChild_match _ _ _ _ _ _
  | some child =>
    refine congrArg (simpleTreeDestroyGroup n m i child).bind (funext fun r => ?_)
    exact destroyChild_match _ _ _ _ _ _

/-- A group of a tree, destroyed: each node is handed to `del_func` once, after those below it. -/
lemma destroyChild_spec (h : Linked m p d none t) (hd : t.nodes.Nodup)
    (hn : t.nodes.length ≤ n) (i : TreeId) :
    ∃ m', destroyChild n m i t.rootValue = some (m', t.postorder) ∧
      (∀ u ∉ t.nodes, m'.node u = m.node u) ∧
      m'.tree = fun j =>
        if j = i then { m.tree j with nodesNum := (m.tree j).nodesNum - t.nodes.length }
        else m.tree j := by
  induction t generalizing m p d n with
  | nil =>
    refine ⟨m, rfl, fun _ _ => rfl, ?_⟩
    funext j
    simp
  | node v c s ihc ihs =>
    obtain ⟨⟨hvc, hvs⟩, hdc, hds, hcs⟩ := nodup_node.1 hd
    simp only [nodes_node, List.length_cons, List.length_append] at hn
    obtain ⟨n, rfl⟩ : ∃ l, n = l + 1 := ⟨n - 1, by omega⟩
    obtain ⟨m₁, hrun₁, hout₁, htree₁⟩ := ihc (n := n) h.2.1 hdc (by omega)
    have hout₂ : ∀ u ∉ (node v c .nil).nodes,
        ((m₁.set v ⟨none, none, none, 0, 0⟩).subNum i 1).node u = m.node u := by
      intro u hu
      simp only [nodes_node, nodes_nil, List.append_nil, List.mem_cons, not_or] at hu
      simp [Memory.set, Memory.subNum, hu.1, hout₁ u hu.2]
    obtain ⟨m₃, hrun₃, hout₃, htree₃⟩ := ihs (n := n)
      (h.2.2.congr fun u hu => hout₂ u (by
        simp only [nodes_node, nodes_nil, List.append_nil, List.mem_cons, not_or]
        exact ⟨ne_of_mem_of_not_mem hu hvs, fun huc => hcs u huc hu⟩)) hds (by omega)
    refine ⟨m₃, ?_, fun u hu => ?_, ?_⟩
    · change simpleTreeDestroyGroup (n + 1) m i v = _
      have hnext := h.1.slibling
      rw [Option.or_none, ← hout₁ v hvc] at hnext
      rw [destroyGroup_succ, h.1.child, hrun₁, Option.bind_some]
      dsimp only
      rw [hnext, hrun₃]
      rfl
    · rw [nodes_node, List.mem_cons, List.mem_append] at hu
      rw [hout₃ u fun h => hu (.inr (.inr h)), hout₂ u]
      simp only [nodes_node, nodes_nil, List.append_nil, List.mem_cons]
      tauto
    · rw [htree₃]
      funext j
      by_cases hj : j = i
      · simp only [Memory.set, Memory.subNum, Memory.modify_tree, Memory.modifyTree_tree, htree₁,
          hj, if_pos, nodes_node, List.length_cons, List.length_append]
        congr 1
        omega
      · simp [Memory.set, Memory.subNum, htree₁, hj]

lemma enumChild_match (n : ℕ) (m : Memory) (v : NodeId) (l : List NodeId) (o : Option NodeId) :
    (match o with
    | none => some (v :: l)
    | some next => do some (v :: (l ++ (← simpleTreeNodeEnum n m next)))) =
      (enumChild n m o).map fun l' => v :: (l ++ l') := by
  cases o with
  | none => simp [enumChild]
  | some next =>
    change Option.bind _ _ = Option.map _ (simpleTreeNodeEnum n m next)
    cases simpleTreeNodeEnum n m next <;> rfl

lemma nodeEnum_succ (n : ℕ) (m : Memory) (v : NodeId) :
    simpleTreeNodeEnum (n + 1) m v =
      (enumChild n m (m.node v).pnodeChild).bind fun l =>
        (enumChild n m (m.node v).pnodeSlibling).map fun l' => v :: (l ++ l') := by
  rw [simpleTreeNodeEnum]
  cases hc : (m.node v).pnodeChild with
  | none => exact enumChild_match _ _ _ _ _
  | some child =>
    refine congrArg (simpleTreeNodeEnum n m child).bind (funext fun l => ?_)
    exact enumChild_match _ _ _ _ _

/-- A group is enumerated in preorder. -/
lemma enumChild_spec (h : Linked m p d none t) (hn : t.nodes.length ≤ n) :
    enumChild n m t.rootValue = some t.nodes := by
  induction t generalizing p d n with
  | nil => rfl
  | node v c s ihc ihs =>
    simp only [nodes_node, List.length_cons, List.length_append] at hn
    obtain ⟨n, rfl⟩ : ∃ l, n = l + 1 := ⟨n - 1, by omega⟩
    change simpleTreeNodeEnum (n + 1) m v = _
    rw [nodeEnum_succ, h.1.child, h.1.slibling, Option.or_none, ihc h.2.1 (by omega),
      Option.bind_some, ihs h.2.2 (by omega)]
    rfl

/-- A group counted, with its last node. -/
lemma countGroup_eq (h : Linked m p d none (.node v c s)) (hn : s.length < n) :
    ∃ l, countGroup n m v = some ((node v c s).length, l) ∧
      (node v c s).lastValue = some l := by
  induction s generalizing v c n with
  | nil =>
    obtain ⟨n, rfl⟩ : ∃ l, n = l + 1 := ⟨n - 1, by omega⟩
    refine ⟨v, ?_, rfl⟩
    rw [countGroup, h.1.slibling]
    rfl
  | node w c' s _ ih =>
    rw [length_node] at hn
    obtain ⟨n, rfl⟩ : ∃ l, n = l + 1 := ⟨n - 1, by omega⟩
    obtain ⟨l, hrun, hl⟩ := ih (n := n) h.2.2 (by omega)
    refine ⟨l, ?_, ?_⟩
    · rw [countGroup, h.1.slibling]
      change Option.bind (countGroup n m w) _ = _
      rw [hrun]
      rfl
    · rw [lastValue, hl]
      rfl

/-- The nodes below one that is duplicated as `x`. -/
def dupBelow (n : ℕ) (m : Memory) (dups : List (Option Dup)) (x : NodeId) :
    Option NodeId → Option (Memory × List (Option Dup))
  | none => some (m, dups)
  | some child =>
    (dupLoop n m dups child x none none).map fun r => (r.1.setChild x r.2.2, r.2.1)

/-- The siblings after one that is duplicated as `x`. -/
def dupAfter (n : ℕ) (m : Memory) (dups : List (Option Dup)) (q x : NodeId)
    (ret : Option NodeId) :
    Option NodeId → Option (Memory × List (Option Dup) × Option NodeId)
  | none => some (m.setSlibling x none, dups, ret)
  | some next => dupLoop n m dups next q (some x) ret

/-- The node made before is linked to the new one. -/
def linkPrev (m : Memory) (x : NodeId) : Option NodeId → Memory
  | none => m
  | some prev => m.setSlibling prev (some x)

lemma dupLoop_succ (n : ℕ) (m : Memory) (x : NodeId) (r : SimpleTreeNode)
    (dups : List (Option Dup)) (v q : NodeId) (prev ret : Option NodeId) (hv : v ≠ x) :
    dupLoop (n + 1) m (some (x, r) :: dups) v q prev ret =
      (dupBelow n (((m.set x r).setParent x (some q)).setChildren x (m.node v).nodeChildren) dups x
        (m.node v).pnodeChild).bind fun a =>
          dupAfter n (linkPrev a.1 x prev) a.2 q x (if prev = none then some x else ret)
            (a.1.node v).pnodeSlibling := by
  have hsame : ((m.set x r).setParent x (some q)).node v = m.node v := by
    simp [Memory.set, Memory.setParent, hv]
  have hsame' : ∀ k, (((m.set x r).setParent x (some q)).setChildren x k).node v = m.node v := by
    simp [Memory.set, Memory.setParent, Memory.setChildren, hv]
  have hafter : ∀ (a : Memory × List (Option Dup)) (ret' : Option NodeId),
      (match (a.1.node v).pnodeSlibling with
      | none =>
        some ((match prev with
          | none => a.1
          | some prev => a.1.setSlibling prev (some x)).setSlibling x none, a.2, ret')
      | some next =>
        dupLoop n (match prev with
          | none => a.1
          | some prev => a.1.setSlibling prev (some x)) a.2 next q (some x) ret') =
        dupAfter n (linkPrev a.1 x prev) a.2 q x ret' (a.1.node v).pnodeSlibling := by
    intro a ret'
    cases (a.1.node v).pnodeSlibling <;> cases prev <;> rfl
  rw [dupLoop]
  dsimp only
  rw [hsame, hsame']
  cases hc : (m.node v).pnodeChild with
  | none => exact hafter (_, dups) _
  | some child =>
    rw [dupBelow, Option.bind_map]
    refine congrArg (dupLoop n _ dups child x none none).bind (funext fun b => ?_)
    exact hafter (_, b.2.1) _

/-- What is handed out goes to a node, to its children and to its siblings. -/
lemma exists_cons_append {made : List Dup} {k l : ℕ} (h : made.length = k + l + 1) :
    ∃ x r mc ms, made = (x, r) :: (mc ++ ms) ∧ mc.length = k ∧ ms.length = l := by
  cases made with
  | nil => simp at h
  | cons y made =>
    rw [List.length_cons] at h
    refine ⟨y.1, y.2, made.take k, made.drop k, ?_, ?_, ?_⟩
    · rw [List.take_append_drop]
    · rw [List.length_take]
      omega
    · rw [List.length_drop]
      omega

lemma linkPrev_node_of_notMem {prev : Option NodeId} {u : NodeId} (x : NodeId) (hu : u ∉ prev) :
    (linkPrev m x prev).node u = m.node u := by
  cases prev with
  | none => rfl
  | some w =>
    have hne : u ≠ w := fun h => hu (by rw [h]; rfl)
    simp [linkPrev, Memory.setSlibling, hne]

lemma linkPrev_node_of_mem {prev : Option NodeId} {w : NodeId} (x : NodeId) (hw : w ∈ prev) :
    (linkPrev m x prev).node w = { m.node w with pnodeSlibling := some x } := by
  obtain rfl := Option.mem_def.1 hw
  simp [linkPrev, Memory.setSlibling]

lemma linkPrev_tree (x : NodeId) (prev : Option NodeId) : (linkPrev m x prev).tree = m.tree := by
  cases prev <;> rfl

/-- A group duplicated, the nodes handed out in preorder: the new nodes are linked in the same
shape under the new parent, the node made before is linked to the first of them, and nothing else
changes. -/
lemma dupLoop_spec {made : List Dup} (h : Linked m p d none t) (ht : t.rootValue = some v)
    (hlen : made.length = t.nodes.length) (hd : (made.map Prod.fst).Nodup)
    (hsep : ∀ x ∈ made.map Prod.fst, x ∉ t.nodes) (hclean : ∀ x ∈ made, x.2.pnodeChild = none)
    (hn : t.nodes.length ≤ n) (rest : List (Option Dup)) (q : NodeId) (prev ret : Option NodeId)
    (hprev : ∀ w ∈ prev, w ∉ made.map Prod.fst ∧ w ∉ t.nodes) :
    ∃ m', dupLoop n m (made.map some ++ rest) v q prev ret =
        some (m', rest, if prev = none then (t.relabel (made.map Prod.fst)).1.rootValue else ret) ∧
      Linked m' (some q) none none (t.relabel (made.map Prod.fst)).1 ∧ m'.tree = m.tree ∧
      (∀ u ∉ made.map Prod.fst, u ∉ prev → m'.node u = m.node u) ∧
      ∀ w ∈ prev, m'.node w =
        { m.node w with pnodeSlibling := (t.relabel (made.map Prod.fst)).1.rootValue } := by
  induction t generalizing m p d v n made rest q prev ret with
  | nil => simp at ht
  | node v' c s ihc ihs =>
    obtain rfl := (Option.some.inj ht).symm
    obtain ⟨n, rfl⟩ : ∃ l, n = l + 1 := ⟨n - 1, by simp at hn; omega⟩
    simp only [nodes_node, List.length_cons, List.length_append] at hlen hn
    obtain ⟨x, r, mc, ms, rfl, hmc, hms⟩ := exists_cons_append hlen
    simp only [List.map_cons, List.map_append, List.nodup_cons, List.nodup_append',
      List.mem_append, not_or] at hd
    simp only [List.map_cons, List.map_append, List.forall_mem_cons, List.forall_mem_append]
      at hsep hclean
    simp only [nodes_node, List.mem_cons, List.mem_append, not_or] at hsep
    simp only [List.map_cons, List.map_append, nodes_node, List.mem_cons, List.mem_append, not_or]
      at hprev
    obtain ⟨⟨hxc, hxs⟩, hdc, hds, hcs⟩ := hd
    obtain ⟨⟨hxv, hxc', hxs'⟩, hsepc, hseps⟩ := hsep
    obtain ⟨hclx, hclc, hcls⟩ := hclean
    have hT : ((node v c s).relabel (((x, r) :: (mc ++ ms)).map Prod.fst)).1 =
        node x (c.relabel (mc.map Prod.fst)).1 (s.relabel (ms.map Prod.fst)).1 := by
      rw [List.map_cons, List.map_append]
      exact relabel_node v x (by rw [List.length_map, hmc])
    have hTc : (c.relabel (mc.map Prod.fst)).1.nodes = mc.map Prod.fst :=
      nodes_relabel c (by rw [List.length_map, hmc])
    rw [hT]
    set Tc := (c.relabel (mc.map Prod.fst)).1 with hTcdef
    set Ts := (s.relabel (ms.map Prod.fst)).1 with hTsdef
    set m₁ := ((m.set x r).setParent x (some q)).setChildren x (m.node v).nodeChildren with hm₁
    have h₁ : ∀ u ≠ x, m₁.node u = m.node u := by
      intro u hu
      simp [hm₁, Memory.set, Memory.setParent, Memory.setChildren, hu]
    have hx₁ : m₁.node x = { r with pnodeParent := some q, nodeChildren := c.length } := by
      simp [hm₁, Memory.set, Memory.setParent, Memory.setChildren, h.1.children]
    obtain ⟨m₂, hrun₂, hl₂, htree₂, hout₂, hx₂⟩ : ∃ m₂,
        dupBelow n m₁ (mc.map some ++ (ms.map some ++ rest)) x c.rootValue =
          some (m₂, ms.map some ++ rest) ∧
        Linked m₂ (some x) none none Tc ∧ m₂.tree = m.tree ∧
        (∀ u ≠ x, u ∉ mc.map Prod.fst → m₂.node u = m.node u) ∧
        m₂.node x = { m₁.node x with pnodeChild := Tc.rootValue } := by
      cases c with
      | nil =>
        obtain rfl := List.length_eq_zero_iff.1 hmc
        refine ⟨m₁, rfl, trivial, rfl, fun u hu _ => h₁ u hu, ?_⟩
        rw [hx₁]
        exact SimpleTreeNode.ext rfl hclx rfl rfl rfl
      | node y c₁ c₂ =>
        have hlc : Linked m₁ (some v) (d.map (· + 1)) none (node y c₁ c₂) :=
          h.2.1.congr fun u hu => h₁ u (ne_of_mem_of_not_mem hu hxc')
        obtain ⟨m', hrun, hl, htree, hout, -⟩ := ihc (n := n) hlc rfl hmc hdc
          (fun u hu => (hsepc u hu).2.1) hclc (by omega) (ms.map some ++ rest) x none none (by simp)
        refine ⟨m'.setChild x Tc.rootValue, ?_, ?_, htree, fun u hu huc => ?_, ?_⟩
        · change Option.map _ (dupLoop n m₁ _ y x none none) = _
          rw [hrun]
          rfl
        · refine hl.congr fun u hu => ?_
          rw [hTc] at hu
          simp [Memory.setChild, ne_of_mem_of_not_mem hu hxc]
        · simp [Memory.setChild, hu, hout u huc, h₁ u hu]
        · simp [Memory.setChild, hout x hxc]
    have hp₃ : ∀ u ∉ prev, (linkPrev m₂ x prev).node u = m₂.node u := fun u hu =>
      linkPrev_node_of_notMem x hu
    have hw₃ : ∀ w ∈ prev, (linkPrev m₂ x prev).node w =
        { m.node w with pnodeSlibling := some x } := by
      intro w hw
      obtain ⟨⟨hwx, hwc, -⟩, -⟩ := hprev w hw
      rw [linkPrev_node_of_mem x hw, hout₂ w hwx hwc]
    have htree₃ : (linkPrev m₂ x prev).tree = m.tree := (linkPrev_tree x prev).trans htree₂
    have hxp : x ∉ prev := fun hx => (hprev x hx).1.1 rfl
    set m₃ := linkPrev m₂ x prev with hm₃
    have hs₃ : ∀ u ∈ s.nodes, m₃.node u = m.node u := by
      intro u hu
      rw [hp₃ u fun h => (hprev u h).2.2.2 hu]
      exact hout₂ u (fun h => hxs' (h ▸ hu)) fun h => (hsepc u h).2.2 hu
    obtain ⟨m₄, hrun₄, hl₄, htree₄, hout₄, hx₄⟩ : ∃ m₄,
        dupAfter n m₃ (ms.map some ++ rest) q x (if prev = none then some x else ret)
          s.rootValue = some (m₄, rest, if prev = none then some x else ret) ∧
        Linked m₄ (some q) none none Ts ∧ m₄.tree = m.tree ∧
        (∀ u ≠ x, u ∉ ms.map Prod.fst → m₄.node u = m₃.node u) ∧
        m₄.node x = { m₃.node x with pnodeSlibling := Ts.rootValue } := by
      cases s with
      | nil =>
        obtain rfl := List.length_eq_zero_iff.1 hms
        refine ⟨m₃.setSlibling x none, rfl, trivial, htree₃, fun u hu _ => ?_, ?_⟩
        · simp [Memory.setSlibling, hu]
        · simp [Memory.setSlibling, hTsdef, relabel]
      | node y s₁ s₂ =>
        obtain ⟨m', hrun, hl, htree, hout, hw⟩ := ihs (n := n) (m := m₃) (h.2.2.congr hs₃) rfl hms
          hds (fun u hu => (hseps u hu).2.2) hcls (by omega) rest q (some x)
          (if prev = none then some x else ret)
          (by rintro w ⟨⟩; exact ⟨hxs, hxs'⟩)
        refine ⟨m', hrun, hl, htree.trans htree₃, fun u hu hus => hout u hus ?_, hw x rfl⟩
        rintro ⟨⟩
        exact hu rfl
    have hc₄ : ∀ u ∈ mc.map Prod.fst, m₄.node u = m₂.node u := by
      intro u hu
      rw [hout₄ u (fun h => hxc (h ▸ hu)) fun h => hcs hu h, hp₃ u fun h => (hprev u h).1.2.1 hu]
    refine ⟨m₄, ?_, ⟨?_, ?_, hl₄⟩, htree₄, fun u hu hup => ?_, fun w hw => ?_⟩
    · have hxv' : v ≠ x := Ne.symm hxv
      rw [List.map_cons, List.map_append, List.cons_append, List.append_assoc,
        dupLoop_succ n m x r _ v q prev ret hxv', ← hm₁, h.1.child, hrun₂, Option.bind_some]
      have hnext : (m₂.node v).pnodeSlibling = s.rootValue := by
        rw [hout₂ v hxv' fun hv => (hsepc v hv).1 rfl, h.1.slibling, Option.or_none]
      dsimp only
      rw [hnext, ← hm₃, hrun₄]
      rfl
    · rw [hx₄, hp₃ x hxp, hx₂, hx₁]
      refine ⟨(Option.or_none).symm, rfl, rfl, by simp, ?_⟩
      exact (length_relabel c (by rw [List.length_map, hmc])).symm
    · exact hl₂.congr fun u hu => hc₄ u (hTc ▸ hu)
    · simp only [List.map_cons, List.map_append, List.mem_cons, List.mem_append, not_or] at hu
      rw [hout₄ u hu.1 hu.2.2, hp₃ u hup, hout₂ u hu.1 hu.2.1]
    · obtain ⟨⟨hwx, -, hws⟩, -⟩ := hprev w hw
      rw [hout₄ w hwx hws, hw₃ w hw]
      rfl

end SteepSystem.SimpleTrees
