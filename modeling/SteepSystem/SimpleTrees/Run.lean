import SteepSystem.Lib.Runs
import SteepSystem.SimpleTrees.Copy

/-!
Runs of the operations on trees, against the same operations on the shapes of the trees.
-/

namespace SteepSystem.SimpleTrees

open SteepSystem.Lib SteepSystem.Lib.Forest SteepSystem.Lib.Runs

/-- What copies also get the nodes that `dup_func` hands out. -/
inductive Op
  | setRoot (i : TreeId) (v : NodeId)
  | insertSlibling (i : TreeId) (base v : NodeId) (opt : TreeOpt)
  | addChild (i : TreeId) (base v : NodeId) (opt : TreeOpt)
  | destroyNode (i : TreeId) (v : NodeId)
  | moveNodeToChild (td : TreeId) (dst : NodeId) (ts : TreeId) (src : NodeId) (opt : TreeOpt)
  | moveNodeToSlibling (td : TreeId) (dst : NodeId) (ts : TreeId) (src : NodeId) (opt : TreeOpt)
  | moveChildrenToChild (td : TreeId) (dst : NodeId) (ts : TreeId) (src : NodeId) (opt : TreeOpt)
  | moveChildrenToSlibling (td : TreeId) (dst : NodeId) (ts : TreeId) (src : NodeId)
    (opt : TreeOpt)
  | copyNodeToChild (td : TreeId) (dst : NodeId) (ts : TreeId) (src : NodeId) (opt : TreeOpt)
    (made : List Dup)
  | copyNodeToSlibling (td : TreeId) (dst : NodeId) (ts : TreeId) (src : NodeId) (opt : TreeOpt)
    (made : List Dup)
  | copyChildrenToChild (td : TreeId) (dst : NodeId) (ts : TreeId) (src : NodeId) (opt : TreeOpt)
    (made : List Dup)
  | copyChildrenToSlibling (td : TreeId) (dst : NodeId) (ts : TreeId) (src : NodeId)
    (opt : TreeOpt) (made : List Dup)
  | dup (ts td : TreeId) (made : List Dup)

/-- The memory after an operation, with at most so many turns of its loops. -/
def Op.run (n : ℕ) (m : Memory) : Op → Option Memory
  | setRoot i v => some (simpleTreeSetRoot m i v)
  | insertSlibling i base v opt => (simpleTreeInsertSlibling n m i base v opt).map Prod.fst
  | addChild i base v opt => (simpleTreeAddChild n m i base v opt).map Prod.fst
  | destroyNode i v => (simpleTreeDestroyNode n m i v).map Prod.fst
  | moveNodeToChild td dst ts src opt =>
    (simpleTreeMoveNodeToChild n m td dst ts src opt).map Prod.fst
  | moveNodeToSlibling td dst ts src opt =>
    (simpleTreeMoveNodeToSlibling n m td dst ts src opt).map Prod.fst
  | moveChildrenToChild td dst ts src opt =>
    (simpleTreeMoveChildrenToChild n m td dst ts src opt).map Prod.fst
  | moveChildrenToSlibling td dst ts src opt =>
    (simpleTreeMoveChildrenToSlibling n m td dst ts src opt).map Prod.fst
  | copyNodeToChild td dst _ src opt made =>
    (simpleTreeCopyNodeToChild n m td dst src opt (made.map some)).map Prod.fst
  | copyNodeToSlibling td dst _ src opt made =>
    (simpleTreeCopyNodeToSlibling n m td dst src opt (made.map some)).map Prod.fst
  | copyChildrenToChild td dst _ src opt made =>
    (simpleTreeCopyChildrenToChild n m td dst src opt (made.map some)).map Prod.fst
  | copyChildrenToSlibling td dst _ src opt made =>
    (simpleTreeCopyChildrenToSlibling n m td dst src opt (made.map some)).map Prod.fst
  | dup ts td made => (simpleTreeDup n m ts td (made.map some)).map Prod.fst

/-- The trees without the subtree of a node. -/
def detach (a : Trees) (ts : TreeId) (src : NodeId) : Trees :=
  Function.update a ts ((a ts).remove (here src))

/-- The trees without what is below a node. -/
def detachChildren (a : Trees) (ts : TreeId) (src : NodeId) : Trees :=
  Function.update a ts (childless src (a ts))

/-- The trees with a group hung in. -/
def hang (a : Trees) (td : TreeId) (opt : TreeOpt) (dst : NodeId) (g : Forest NodeId) : Trees :=
  Function.update a td (place opt dst g (a td))

/-- A node with its children. -/
def nodeAt (a : Trees) (ts : TreeId) (src : NodeId) : Forest NodeId :=
  .node src ((a ts).childrenAt (here src)) .nil

/-- What an operation makes of the trees. -/
def Op.apply (a : Trees) : Op → Trees
  | setRoot i v => if a i = .nil then Function.update a i (leaf v) else a
  | insertSlibling i base v opt | addChild i base v opt => hang a i opt base (leaf v)
  | destroyNode i v => detach a i v
  | moveNodeToChild td dst ts src opt | moveNodeToSlibling td dst ts src opt =>
    hang (detach a ts src) td opt dst (nodeAt a ts src)
  | moveChildrenToChild td dst ts src opt | moveChildrenToSlibling td dst ts src opt =>
    hang (detachChildren a ts src) td opt dst ((a ts).childrenAt (here src))
  | copyNodeToChild td dst ts src opt made | copyNodeToSlibling td dst ts src opt made =>
    hang a td opt dst (copyOf (nodeAt a ts src) made)
  | copyChildrenToChild td dst ts src opt made | copyChildrenToSlibling td dst ts src opt made =>
    hang a td opt dst (copyOf ((a ts).childrenAt (here src)) made)
  | dup ts td made => Function.update a td (copyOf (a ts) made)

/-- A place among the children of a node. -/
def AsChild (a : Trees) (td : TreeId) (dst : NodeId) (opt : TreeOpt) : Prop :=
  dst ∈ (a td).nodes ∧ (opt = .addFirst ∨ opt = .addLast)

/-- A place beside a node that is no root. -/
def AsSibling (a : Trees) (td : TreeId) (dst : NodeId) (opt : TreeOpt) : Prop :=
  dst ∈ (a td).nodes ∧ (a td).rootValue ≠ some dst ∧ (opt = .insertBefore ∨ opt = .insertAfter)

/-- A node that can be moved there: the place is neither at it nor below it. -/
def Movable (a : Trees) (td : TreeId) (dst : NodeId) (ts : TreeId) (src : NodeId) : Prop :=
  src ∈ (a ts).nodes ∧ dst ≠ src ∧ dst ∉ ((a td).childrenAt (here src)).nodes

/-- A node that is in no tree. -/
def Unused (a : Trees) (v : NodeId) : Prop := ∀ j, v ∉ (a j).nodes

/-- The nodes an operation is applied with are valid ones. -/
def Op.Valid (a : Trees) : Op → Prop
  | setRoot _ v => Unused a v
  | insertSlibling i base v opt => AsSibling a i base opt ∧ Unused a v
  | addChild i base v opt => AsChild a i base opt ∧ Unused a v
  | destroyNode i v => v ∈ (a i).nodes
  | moveNodeToChild td dst ts src opt | moveChildrenToChild td dst ts src opt =>
    AsChild a td dst opt ∧ Movable a td dst ts src
  | moveNodeToSlibling td dst ts src opt | moveChildrenToSlibling td dst ts src opt =>
    AsSibling a td dst opt ∧ Movable a td dst ts src
  | copyNodeToChild td dst ts src opt made =>
    AsChild a td dst opt ∧ src ∈ (a ts).nodes ∧ Fresh a (nodeAt a ts src) made
  | copyNodeToSlibling td dst ts src opt made =>
    AsSibling a td dst opt ∧ src ∈ (a ts).nodes ∧ Fresh a (nodeAt a ts src) made
  | copyChildrenToChild td dst ts src opt made =>
    AsChild a td dst opt ∧ src ∈ (a ts).nodes ∧ Fresh a ((a ts).childrenAt (here src)) made
  | copyChildrenToSlibling td dst ts src opt made =>
    AsSibling a td dst opt ∧ src ∈ (a ts).nodes ∧ Fresh a ((a ts).childrenAt (here src)) made
  | dup ts td made => td ≠ ts ∧ a ts ≠ .nil ∧ a td = .nil ∧ Fresh a (a ts) made

/-- A group of children to which the last one is not looked for in vain. -/
def LastFound (a : Trees) (td : TreeId) (dst : NodeId) (opt : TreeOpt) : Prop :=
  opt = .addLast → ((a td).childrenAt (here dst)).length ≠ 1

/-- A group whose own last one is not looked for in vain, where it is linked to others. -/
def GroupFound (a : Trees) (td : TreeId) (dst : NodeId) (opt : TreeOpt) (g : Forest NodeId) : Prop :=
  opt = .addFirst → (a td).childrenAt (here dst) ≠ .nil → g.length ≠ 1

/-- What the operations do not get right: a node added last to a single child, a single child
added first to others, and a node inserted before one that is not the first. -/
def Op.Sound (a : Trees) : Op → Prop
  | moveNodeToChild td dst ts src opt => LastFound (detach a ts src) td dst opt
  | moveNodeToSlibling td dst ts src opt => opt = .insertBefore →
    ∃ p, ((detach a ts src td).childrenAt (here p)).rootValue = some dst
  | moveChildrenToChild td dst ts src opt =>
    LastFound a td dst opt ∧ GroupFound a td dst opt ((a ts).childrenAt (here src))
  | copyNodeToChild td dst _ _ opt _ => LastFound a td dst opt
  | copyChildrenToChild td dst ts src opt _ =>
    ((a ts).childrenAt (here src) ≠ .nil → LastFound a td dst opt) ∧
      GroupFound a td dst opt ((a ts).childrenAt (here src))
  | _ => True

def Applies (a : Trees) (op : Op) (b : Trees) : Prop := b = op.apply a

variable {m m' : Memory} {a b : Trees} {op : Op} {ops : List Op}

/-- What an operation comes to if its loops may take so many turns. -/
def Op.turns (a : Trees) : Op → ℕ
  | setRoot _ _ => 0
  | insertSlibling i _ _ _ | addChild i _ _ _ | destroyNode i _ => (a i).nodes.length
  | moveNodeToChild td _ ts _ _ | moveNodeToSlibling td _ ts _ _ | moveChildrenToChild td _ ts _ _
  | moveChildrenToSlibling td _ ts _ _ | copyNodeToChild td _ ts _ _ _
  | copyNodeToSlibling td _ ts _ _ _ | copyChildrenToChild td _ ts _ _ _
  | copyChildrenToSlibling td _ ts _ _ _ => (a td).nodes.length + (a ts).nodes.length + 1
  | dup ts _ _ => (a ts).nodes.length + 1

lemma map_fst {m' : Memory} {r : Option (Memory × Bool)} (h : r = some (m', true)) :
    r.map Prod.fst = some m' := by
  rw [h, Option.map_some]

/-- **One operation**: with valid nodes, and where it is sound, it makes of the memory what the
operation on shapes makes of the trees. -/
lemma run_keeps (h : Represents m a) (hvalid : op.Valid a) (hsound : op.Sound a) {n : ℕ}
    (hn : op.turns a ≤ n) : ∃ m', op.run n m = some m' ∧ Represents m' (op.apply a) := by
  have hroot : ∀ {td : TreeId} {dst : NodeId}, (a td).rootValue ≠ some dst →
      (m.tree td).root ≠ some dst := fun hne => h.root _ ▸ hne
  cases op with
  | setRoot i v => exact ⟨_, rfl, setRoot_spec h hvalid⟩
  | insertSlibling i base v opt =>
    obtain ⟨⟨hb, hr, hopt⟩, hv⟩ := hvalid
    obtain ⟨m', hrun, hm'⟩ := insertSlibling_spec h hb (hroot hr) hv hopt hn
    exact ⟨m', map_fst hrun, hm'⟩
  | addChild i base v opt =>
    obtain ⟨⟨hb, hopt⟩, hv⟩ := hvalid
    obtain ⟨m', hrun, hm'⟩ := addChild_spec h hb hv hopt hn
    exact ⟨m', map_fst hrun, hm'⟩
  | destroyNode i v =>
    obtain ⟨m', hrun, hm'⟩ := destroyNode_spec h hvalid hn
    exact ⟨m', by rw [Op.run, hrun, Option.map_some], hm'⟩
  | moveNodeToChild td dst ts src opt =>
    obtain ⟨⟨hdst, hopt⟩, hsrc, hne, hanc⟩ := hvalid
    obtain ⟨m', hrun, hm'⟩ := moveNodeToChild_spec h hdst hsrc hne hanc hopt hsound hn
    exact ⟨m', map_fst hrun, hm'⟩
  | moveNodeToSlibling td dst ts src opt =>
    obtain ⟨⟨hdst, hr, hopt⟩, hsrc, hne, hanc⟩ := hvalid
    obtain ⟨m', hrun, hm'⟩ :=
      moveNodeToSlibling_spec h hdst hsrc hne hanc (hroot hr) hopt hsound hn
    exact ⟨m', map_fst hrun, hm'⟩
  | moveChildrenToChild td dst ts src opt =>
    obtain ⟨⟨hdst, hopt⟩, hsrc, hne, hanc⟩ := hvalid
    obtain ⟨m', hrun, hm'⟩ :=
      moveChildrenToChild_spec h hdst hsrc hne hanc hopt hsound.1 hsound.2 hn
    exact ⟨m', map_fst hrun, hm'⟩
  | moveChildrenToSlibling td dst ts src opt =>
    obtain ⟨⟨hdst, hr, hopt⟩, hsrc, -, hanc⟩ := hvalid
    obtain ⟨m', hrun, hm'⟩ := moveChildrenToSlibling_spec h hdst hsrc hanc (hroot hr) hopt hn
    exact ⟨m', map_fst hrun, hm'⟩
  | copyNodeToChild td dst ts src opt made =>
    obtain ⟨⟨hdst, hopt⟩, hsrc, hmade⟩ := hvalid
    have hspec : ∃ m', simpleTreeCopyNodeToChild n m td dst src opt (made.map some ++ []) =
        some (m', true) ∧ Represents m' _ :=
      copyNodeToChild_spec h hdst hsrc hopt hmade hsound hn
    obtain ⟨m', hrun, hm'⟩ := hspec
    rw [List.append_nil] at hrun
    exact ⟨m', map_fst hrun, hm'⟩
  | copyNodeToSlibling td dst ts src opt made =>
    obtain ⟨⟨hdst, hr, hopt⟩, hsrc, hmade⟩ := hvalid
    have hspec : ∃ m', simpleTreeCopyNodeToSlibling n m td dst src opt (made.map some ++ []) =
        some (m', true) ∧ Represents m' _ :=
      copyNodeToSlibling_spec h hdst hsrc (hroot hr) hopt hmade hn
    obtain ⟨m', hrun, hm'⟩ := hspec
    rw [List.append_nil] at hrun
    exact ⟨m', map_fst hrun, hm'⟩
  | copyChildrenToChild td dst ts src opt made =>
    obtain ⟨⟨hdst, hopt⟩, hsrc, hmade⟩ := hvalid
    have hspec : ∃ m', simpleTreeCopyChildrenToChild n m td dst src opt (made.map some ++ []) =
        some (m', true) ∧ Represents m' _ :=
      copyChildrenToChild_spec h hdst hsrc hopt hmade (fun hlast hne => hsound.1 hne hlast) hsound.2 hn
    obtain ⟨m', hrun, hm'⟩ := hspec
    rw [List.append_nil] at hrun
    exact ⟨m', map_fst hrun, hm'⟩
  | copyChildrenToSlibling td dst ts src opt made =>
    obtain ⟨⟨hdst, hr, hopt⟩, hsrc, hmade⟩ := hvalid
    have hspec : ∃ m', simpleTreeCopyChildrenToSlibling n m td dst src opt (made.map some ++ []) =
        some (m', true) ∧ Represents m' _ :=
      copyChildrenToSlibling_spec h hdst hsrc (hroot hr) hopt hmade hn
    obtain ⟨m', hrun, hm'⟩ := hspec
    rw [List.append_nil] at hrun
    exact ⟨m', map_fst hrun, hm'⟩
  | dup ts td made =>
    obtain ⟨hne, hsrc, hdst, hmade⟩ := hvalid
    have hspec : ∃ m', simpleTreeDup n m ts td (made.map some ++ []) = some (m', true) ∧
        Represents m' _ := dup_spec h hne hsrc hdst hmade hn
    obtain ⟨m', hrun, hm'⟩ := hspec
    rw [List.append_nil] at hrun
    exact ⟨m', map_fst hrun, hm'⟩

lemma enumFromNode_spec (h : Represents m a) {i : TreeId} {v : NodeId} {n : ℕ}
    (hv : (a i).rootValue = some v) (hn : (a i).nodes.length ≤ n) :
    simpleTreeEnumFromNode n m v = some (a i).nodes := by
  have hl := h.linked i
  have hlen := h.rooted i
  cases hai : a i with
  | nil =>
    rw [hai] at hv
    cases hv
  | node u c s =>
    rw [hai] at hv hl hlen hn
    cases hv
    rw [length_node] at hlen
    obtain rfl : s = .nil := by
      cases s with
      | nil => rfl
      | node => simp at hlen
    rw [nodes_node, List.length_cons, nodes_nil, List.append_nil] at hn
    have hchild : enumChild n m (m.node v).pnodeChild = some c.nodes := by
      rw [hl.1.child]
      exact enumChild_spec hl.2.1 (by omega)
    rw [simpleTreeEnumFromNode, hchild]
    simp

def Admitted (a : Trees) (op : Op) : Prop := op.Valid a ∧ op.Sound a

/-- **Trees**: after any operations with valid nodes that are sound, each for the trees it is applied
to, the memory stands for the trees that the operations on shapes lead to, if only the loops may
take turns enough, and each tree is enumerated in preorder. -/
theorem forests_of_run (h : Represents m a) (hrun : Run Admitted Applies a ops b) :
    ∃ l, ∀ n ≥ l, ∃ m', ops.foldlM (fun m op => op.run n m) m = some m' ∧ Represents m' b ∧
      ∀ i v, (b i).rootValue = some v → (b i).nodes.length ≤ n →
        simpleTreeEnumFromNode n m' v = some (b i).nodes := by
  have hsteps : ∃ l, ∀ m, Represents m a → ∀ n ≥ l, ∃ m',
      ops.foldlM (fun m op => op.run n m) m = some m' ∧ Represents m' b := by
    clear h
    induction hrun with
    | nil a => exact ⟨0, fun m h n _ => ⟨m, rfl, h⟩⟩
    | @cons a b c op ops hadmits happly _ ih =>
      obtain ⟨l, hrest⟩ := ih
      refine ⟨max (op.turns a) l, fun m h n hn => ?_⟩
      obtain ⟨m₁, hm₁, h₁⟩ := run_keeps h hadmits.1 hadmits.2 ((le_max_left _ _).trans hn)
      obtain ⟨m', hm', h'⟩ := hrest m₁ (happly ▸ h₁) n ((le_max_right _ _).trans hn)
      exact ⟨m', by rw [List.foldlM_cons, hm₁]; exact hm', h'⟩
  obtain ⟨l, hl⟩ := hsteps
  refine ⟨l, fun n hn => ?_⟩
  obtain ⟨m', hm', h'⟩ := hl m h n hn
  exact ⟨m', hm', h', fun i v hv hlen => enumFromNode_spec h' hv hlen⟩

/-- A memory with no trees. -/
def noTrees : Memory := ⟨fun _ => ⟨none, none, none, 0, 0⟩, fun _ => ⟨none, 0⟩⟩

lemma represents_noTrees : Represents noTrees fun _ => .nil where
  root _ := rfl
  nodesNum _ := rfl
  linked _ := trivial
  rooted _ := Nat.zero_le _
  nodup _ := List.nodup_nil
  apart _ _ _ _ hv := absurd hv List.not_mem_nil

theorem forests_of_run_two :
    ∃ b l, (b 0).nodes = [1, 2] ∧ ∀ n ≥ l, ∃ m',
      [Op.setRoot 0 1, .addChild 0 1 2 .addLast].foldlM (fun m op => op.run n m) noTrees =
        some m' ∧ Represents m' b := by
  have hrun : Run Admitted Applies (fun _ => .nil) [Op.setRoot 0 1, .addChild 0 1 2 .addLast]
      ((Op.addChild 0 1 2 .addLast).apply ((Op.setRoot 0 1).apply fun _ => .nil)) := by
    refine .cons ⟨fun j => List.not_mem_nil, trivial⟩ rfl
      (.cons ⟨⟨⟨by decide, .inr rfl⟩, fun j => ?_⟩, trivial⟩ rfl (.nil _))
    by_cases hj : j = 0
    · subst hj
      decide
    · simp [Op.apply, hj]
  obtain ⟨l, hl⟩ := forests_of_run represents_noTrees hrun
  refine ⟨(Op.addChild 0 1 2 .addLast).apply ((Op.setRoot 0 1).apply fun _ => .nil), l, by decide,
    fun n hn => ?_⟩
  obtain ⟨m', hm', h', -⟩ := hl n hn
  exact ⟨m', hm', h'⟩

/-- A root, a node below it and another one below that. -/
def chain : Trees := fun i => if i = 0 then .node 1 (.node 2 (leaf 3) .nil) .nil else .nil

def chainMemory : Memory where
  node v :=
    if v = 1 then ⟨none, some 2, none, 0, 1⟩
    else if v = 2 then ⟨none, some 3, some 1, 1, 1⟩
    else ⟨none, none, some 2, 2, 0⟩
  tree i := if i = 0 then ⟨some 1, 3⟩ else ⟨none, 0⟩

lemma represents_chain : Represents chainMemory chain := by
  refine ⟨fun i => ?_, fun i => ?_, fun i => ?_, fun i => ?_, fun i => ?_, fun i j hij v hv => ?_⟩
  · by_cases hi : i = 0 <;> simp [chain, chainMemory, hi]
  · by_cases hi : i = 0 <;> simp [chain, chainMemory, hi, leaf]
  · by_cases hi : i = 0
    · subst hi
      refine ⟨⟨?_, ?_, ?_, ?_, ?_⟩, ⟨⟨?_, ?_, ?_, ?_, ?_⟩, ⟨⟨?_, ?_, ?_, ?_, ?_⟩, trivial, trivial⟩,
        trivial⟩, trivial⟩
      all_goals simp [chainMemory, leaf]
    · simp [chain, hi, Linked]
  · by_cases hi : i = 0 <;> simp [chain, hi]
  · by_cases hi : i = 0 <;> simp [chain, hi, leaf]
  · by_cases hi : i = 0
    · have hj : j ≠ 0 := fun hj => hij (hi.trans hj.symm)
      simp [chain, hj]
    · simp [chain, hi] at hv

/-- A node is moved below the root, behind its only child: the last child is not found. -/
theorem not_forests_of_run :
    ∃ (m : Memory) (a : Trees) (op : Op), Represents m a ∧ op.Valid a ∧
      ∀ l, ∃ n ≥ l, op.run n m = none := by
  refine ⟨chainMemory, chain, .moveNodeToChild 0 1 0 3 .addLast, represents_chain,
    ⟨⟨by decide, .inr rfl⟩, by decide, by decide, by decide⟩, fun l => ⟨l + 8, by omega, ?_⟩⟩
  rfl

end SteepSystem.SimpleTrees
