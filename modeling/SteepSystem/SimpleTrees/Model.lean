import SteepSystem.Lib.Zippers

/-!
The pointer trees of `simple_tree.c`. A node is an address with the links, the depth and the
child count that the source keeps there; a null pointer is `none`. The operations read and write
one memory of nodes and trees. What dereferences a null pointer, or uses a pointer that was
never set, has no result, and neither has a loop that is still running when the fuel is spent.
-/

namespace SteepSystem.SimpleTrees

open SteepSystem.Lib

/-- The address of a `SIMPLE_TREE_NODE`. -/
abbrev NodeId := ℕ

/-- The address of a `SIMPLE_TREE`. -/
abbrev TreeId := ℕ

@[ext]
structure SimpleTreeNode where
  pnodeSlibling : Option NodeId
  pnodeChild : Option NodeId
  pnodeParent : Option NodeId
  nodeDepth : ℕ
  nodeChildren : ℕ
deriving DecidableEq

structure SimpleTree where
  root : Option NodeId
  nodesNum : ℕ
deriving DecidableEq

inductive TreeOpt
  | insertBefore
  | insertAfter
  | addFirst
  | addLast
deriving DecidableEq

structure Memory where
  node : NodeId → SimpleTreeNode
  tree : TreeId → SimpleTree

/-- A node that `dup_func` hands out, as it is when it is handed out. -/
abbrev Dup := NodeId × SimpleTreeNode

namespace Memory

variable (m : Memory)

/-- What `v` holds becomes `f` of it. -/
def modify (v : NodeId) (f : SimpleTreeNode → SimpleTreeNode) : Memory :=
  { m with node := fun u => if u = v then f (m.node u) else m.node u }

/-- What the tree `t` holds becomes `f` of it. -/
def modifyTree (t : TreeId) (f : SimpleTree → SimpleTree) : Memory :=
  { m with tree := fun u => if u = t then f (m.tree u) else m.tree u }

def set (v : NodeId) (r : SimpleTreeNode) : Memory := m.modify v fun _ => r

def setSlibling (v : NodeId) (p : Option NodeId) : Memory :=
  m.modify v fun r => { r with pnodeSlibling := p }

def setChild (v : NodeId) (p : Option NodeId) : Memory :=
  m.modify v fun r => { r with pnodeChild := p }

def setParent (v : NodeId) (p : Option NodeId) : Memory :=
  m.modify v fun r => { r with pnodeParent := p }

def setDepth (v : NodeId) (d : ℕ) : Memory :=
  m.modify v fun r => { r with nodeDepth := d }

def setChildren (v : NodeId) (k : ℕ) : Memory :=
  m.modify v fun r => { r with nodeChildren := k }

def addChildren (v : NodeId) (k : ℕ) : Memory :=
  m.modify v fun r => { r with nodeChildren := r.nodeChildren + k }

def subChildren (v : NodeId) (k : ℕ) : Memory :=
  m.modify v fun r => { r with nodeChildren := r.nodeChildren - k }

def setRoot (t : TreeId) (p : Option NodeId) : Memory :=
  m.modifyTree t fun r => { r with root := p }

def setNum (t : TreeId) (k : ℕ) : Memory :=
  m.modifyTree t fun r => { r with nodesNum := k }

def addNum (t : TreeId) (k : ℕ) : Memory :=
  m.modifyTree t fun r => { r with nodesNum := r.nodesNum + k }

def subNum (t : TreeId) (k : ℕ) : Memory :=
  m.modifyTree t fun r => { r with nodesNum := r.nodesNum - k }

end Memory

def simpleTreeInit (m : Memory) (ptree : TreeId) : Memory :=
  m.modifyTree ptree fun _ => ⟨none, 0⟩

/-- What it returns where it sets the root is not defined, and no caller reads it. -/
def simpleTreeSetRoot (m : Memory) (ptree : TreeId) (pnode : NodeId) : Memory :=
  if (m.tree ptree).root ≠ none then m
  else ((m.set pnode ⟨none, none, none, 0, 0⟩).setRoot ptree (some pnode)).setNum ptree 1

/-- The loop for the node right before `pnode`, from `temp` on. -/
def findPrev : ℕ → Memory → NodeId → NodeId → Option NodeId
  | 0, _, _, _ => none
  | n + 1, m, temp, pnode =>
    if (m.node temp).pnodeSlibling = some pnode then some temp
    else do findPrev n m (← (m.node temp).pnodeSlibling) pnode

/-- The loop `while (pnode_temp = pnode_temp->pnode_slibling) pnode_last = pnode_temp`, with what
`pnode_last` is before it: `none` where the source has not set it. -/
def findLast : ℕ → Memory → NodeId → Option NodeId → Option (Option NodeId)
  | 0, _, _, _ => none
  | n + 1, m, temp, last =>
    match (m.node temp).pnodeSlibling with
    | none => some last
    | some next => findLast n m next (some next)

/-- The loop up the parents from `temp`: whether it meets `pnode`. -/
def meetsParent : ℕ → Memory → NodeId → NodeId → Option Bool
  | 0, _, _, _ => none
  | n + 1, m, temp, pnode =>
    if temp = pnode then some true
    else
      match (m.node temp).pnodeParent with
      | none => some false
      | some parent => meetsParent n m parent pnode

/-- The loop `while (pnode_temp = pnode_temp->pnode_parent)` that looks for `pnode` above
`temp`. -/
def meetsAbove (n : ℕ) (m : Memory) (temp pnode : NodeId) : Option Bool :=
  match (m.node temp).pnodeParent with
  | none => some false
  | some parent => meetsParent n m parent pnode

/-- The loop that gives a group a new parent, and the last node it visits. -/
def setParents : ℕ → Memory → NodeId → Option NodeId → Option (Memory × NodeId)
  | 0, _, _, _ => none
  | n + 1, m, temp, parent =>
    let m := m.setParent temp parent
    match (m.node temp).pnodeSlibling with
    | none => some (m, temp)
    | some next => setParents n m next parent

def simpleTreeInsertSlibling (n : ℕ) (m : Memory) (ptree : TreeId) (pnodeBase pnode : NodeId)
    (opt : TreeOpt) : Option (Memory × Bool) :=
  if some pnodeBase = (m.tree ptree).root then some (m, false)
  else if opt = .insertAfter then do
    let m := m.set pnode ⟨(m.node pnodeBase).pnodeSlibling, none,
      (m.node pnodeBase).pnodeParent, (m.node pnodeBase).nodeDepth, 0⟩
    let m := m.setSlibling pnodeBase (some pnode)
    let parent ← (m.node pnodeBase).pnodeParent
    let m := m.addChildren parent 1
    some (m.addNum ptree 1, true)
  else if opt = .insertBefore then do
    let parent ← (m.node pnodeBase).pnodeParent
    let temp ← (m.node parent).pnodeChild
    let m := m.addChildren parent 1
    let m := m.addNum ptree 1
    let m := m.set pnode ⟨some pnodeBase, none, (m.node pnodeBase).pnodeParent,
      (m.node pnodeBase).nodeDepth, 0⟩
    if temp = pnodeBase then some (m.setChild parent (some pnode), true)
    else do
      let temp ← findPrev n m temp pnodeBase
      some (m.setSlibling temp (some pnode), true)
  else some (m, false)

def simpleTreeAddChild (n : ℕ) (m : Memory) (ptree : TreeId) (pnodeBase pnode : NodeId)
    (opt : TreeOpt) : Option (Memory × Bool) :=
  if (m.node pnodeBase).nodeChildren = 0 then
    let m := m.set pnode ⟨none, none, some pnodeBase, (m.node pnodeBase).nodeDepth + 1, 0⟩
    let m := m.setChildren pnodeBase 1
    let m := m.setChild pnodeBase (some pnode)
    some (m.addNum ptree 1, true)
  else if opt = .addFirst then
    let m := m.set pnode ⟨(m.node pnodeBase).pnodeChild, none, some pnodeBase,
      (m.node pnodeBase).nodeDepth + 1, 0⟩
    let m := m.setChild pnodeBase (some pnode)
    let m := m.addChildren pnodeBase 1
    some (m.addNum ptree 1, true)
  else if opt = .addLast then do
    let temp ← (m.node pnodeBase).pnodeChild
    let last ← (← findLast n m temp (some temp))
    let m := m.set pnode ⟨none, none, some pnodeBase, (m.node pnodeBase).nodeDepth + 1, 0⟩
    let m := m.setSlibling last (some pnode)
    let m := m.addChildren pnodeBase 1
    some (m.addNum ptree 1, true)
  else some (m, false)

/-- The memory after it, and the nodes that `del_func` was called with. -/
def simpleTreeDestroyGroup : ℕ → Memory → TreeId → NodeId → Option (Memory × List NodeId)
  | 0, _, _, _ => none
  | n + 1, m, ptree, pnode => do
    let (m, deleted) ←
      match (m.node pnode).pnodeChild with
      | none => some (m, [])
      | some child => simpleTreeDestroyGroup n m ptree child
    let next := (m.node pnode).pnodeSlibling
    let m := m.set pnode ⟨none, none, none, 0, 0⟩
    let m := m.subNum ptree 1
    match next with
    | none => some (m, deleted ++ [pnode])
    | some next => do
      let (m, more) ← simpleTreeDestroyGroup n m ptree next
      some (m, deleted ++ pnode :: more)

/-- A group that may be empty, destroyed. -/
def destroyChild (n : ℕ) (m : Memory) (ptree : TreeId) :
    Option NodeId → Option (Memory × List NodeId)
  | none => some (m, [])
  | some child => simpleTreeDestroyGroup n m ptree child

def simpleTreeDestroyNode (n : ℕ) (m : Memory) (ptree : TreeId) (pnode : NodeId) :
    Option (Memory × List NodeId) := do
  let (m, deleted) ← destroyChild n m ptree (m.node pnode).pnodeChild
  if some pnode = (m.tree ptree).root then
    let m := m.setChild pnode none
    let m := m.setChildren pnode 0
    let m := m.subNum ptree 1
    some (m.setRoot ptree none, deleted ++ [pnode])
  else do
    let parent ← (m.node pnode).pnodeParent
    let temp ← (m.node parent).pnodeChild
    if temp = pnode then
      let m := m.setChild parent
        (if (m.node parent).nodeChildren = 1 then none else (m.node pnode).pnodeSlibling)
      let m := m.subChildren parent 1
      let m := m.set pnode ⟨none, none, none, 0, 0⟩
      some (m.subNum ptree 1, deleted ++ [pnode])
    else do
      let temp ← findPrev n m temp pnode
      let m := m.subChildren parent 1
      let m := m.setSlibling temp (m.node pnode).pnodeSlibling
      let m := m.set pnode ⟨none, none, none, 0, 0⟩
      some (m.subNum ptree 1, deleted ++ [pnode])

/-- The nodes that `enum_func` is called with, in order. -/
def simpleTreeNodeEnum : ℕ → Memory → NodeId → Option (List NodeId)
  | 0, _, _ => none
  | n + 1, m, pnode => do
    let below ←
      match (m.node pnode).pnodeChild with
      | none => some []
      | some child => simpleTreeNodeEnum n m child
    match (m.node pnode).pnodeSlibling with
    | none => some (pnode :: below)
    | some next => do some (pnode :: (below ++ (← simpleTreeNodeEnum n m next)))

/-- A group that may be empty, enumerated. -/
def enumChild (n : ℕ) (m : Memory) : Option NodeId → Option (List NodeId)
  | none => some []
  | some child => simpleTreeNodeEnum n m child

def simpleTreeEnumFromNode (n : ℕ) (m : Memory) (pnode : NodeId) : Option (List NodeId) := do
  some (pnode :: (← enumChild n m (m.node pnode).pnodeChild))

def simpleTreeStripGroup : ℕ → Memory → TreeId → NodeId → Option Memory
  | 0, _, _, _ => none
  | n + 1, m, ptree, pnode => do
    let m ←
      match (m.node pnode).pnodeChild with
      | none => some m
      | some child => simpleTreeStripGroup n m ptree child
    let m := m.setDepth pnode 0
    let m := m.subNum ptree 1
    match (m.node pnode).pnodeSlibling with
    | none => some m
    | some next => simpleTreeStripGroup n m ptree next

def simpleTreeCohereGroup : ℕ → Memory → TreeId → NodeId → Option Memory
  | 0, _, _, _ => none
  | n + 1, m, ptree, pnode => do
    let parent ← (m.node pnode).pnodeParent
    let m := m.setDepth pnode ((m.node parent).nodeDepth + 1)
    let m ←
      match (m.node pnode).pnodeChild with
      | none => some m
      | some child => simpleTreeCohereGroup n m ptree child
    let m := m.addNum ptree 1
    match (m.node pnode).pnodeSlibling with
    | none => some m
    | some next => simpleTreeCohereGroup n m ptree next

/-- "First cut the relationship of source tree", for the node itself. -/
def cutNode (n : ℕ) (m : Memory) (ptree : TreeId) (pnode : NodeId) : Option Memory := do
  let m ←
    if some pnode ≠ (m.tree ptree).root then do
      let parent ← (m.node pnode).pnodeParent
      let temp ← (m.node parent).pnodeChild
      let m ←
        if temp = pnode then
          some (m.setChild parent
            (if (m.node parent).nodeChildren = 1 then none else (m.node pnode).pnodeSlibling))
        else do
          let temp ← findPrev n m temp pnode
          some (m.setSlibling temp (m.node pnode).pnodeSlibling)
      some (m.subChildren parent 1)
    else some (m.setRoot ptree none)
  some (m.subNum ptree 1)

/-- A group that may be empty, stripped from its tree. -/
def stripChild (n : ℕ) (m : Memory) (ptree : TreeId) : Option NodeId → Option Memory
  | none => some m
  | some child => simpleTreeStripGroup n m ptree child

/-- A group that may be empty, cohered to its tree. -/
def cohereChild (n : ℕ) (m : Memory) (ptree : TreeId) : Option NodeId → Option Memory
  | none => some m
  | some child => simpleTreeCohereGroup n m ptree child

def simpleTreeMoveNodeToChild (n : ℕ) (m : Memory) (ptreeDst : TreeId) (pnodeDst : NodeId)
    (ptreeSrc : TreeId) (pnodeSrc : NodeId) (opt : TreeOpt) : Option (Memory × Bool) :=
  if opt ≠ .addFirst ∧ opt ≠ .addLast then some (m, false)
  else do
    let met ← meetsParent n m pnodeDst pnodeSrc
    if met then some (m, false) else
    let child := (m.node pnodeSrc).pnodeChild
    let m ← stripChild n m ptreeSrc child
    let m ← cutNode n m ptreeSrc pnodeSrc
    let m := m.setParent pnodeSrc (some pnodeDst)
    let m := m.setDepth pnodeSrc ((m.node pnodeDst).nodeDepth + 1)
    let m := m.addChildren pnodeDst 1
    let m := m.addNum ptreeDst 1
    match (m.node pnodeDst).pnodeChild with
    | none =>
      let m := m.setSlibling pnodeSrc none
      let m := m.setChild pnodeDst (some pnodeSrc)
      some (← cohereChild n m ptreeDst child, true)
    | some temp =>
      if opt = .addFirst then
        let m := m.setSlibling pnodeSrc none
        let m := m.setChild pnodeDst (some pnodeSrc)
        let m ← cohereChild n m ptreeDst child
        some (m.setSlibling pnodeSrc (some temp), true)
      else
        -- `pnode_last` is set only inside the loop.
        let last ← (← findLast n m temp none)
        let m := m.setSlibling pnodeSrc none
        let m := m.setSlibling last (some pnodeSrc)
        some (← cohereChild n m ptreeDst child, true)

def simpleTreeMoveNodeToSlibling (n : ℕ) (m : Memory) (ptreeDst : TreeId) (pnodeDst : NodeId)
    (ptreeSrc : TreeId) (pnodeSrc : NodeId) (opt : TreeOpt) : Option (Memory × Bool) :=
  if opt ≠ .insertAfter ∧ opt ≠ .insertBefore then some (m, false)
  else if pnodeDst = pnodeSrc then some (m, true)
  else do
    let met ← meetsAbove n m pnodeDst pnodeSrc
    if met then some (m, false) else
    if some pnodeDst = (m.tree ptreeDst).root then some (m, false) else
    let child := (m.node pnodeSrc).pnodeChild
    let m ← stripChild n m ptreeSrc child
    let m ← cutNode n m ptreeSrc pnodeSrc
    let parent ← (m.node pnodeDst).pnodeParent
    let m := m.addChildren parent 1
    let m := m.addNum ptreeDst 1
    let m := m.setParent pnodeSrc (some parent)
    let m := m.setDepth pnodeSrc (m.node pnodeDst).nodeDepth
    let m ←
      if opt = .insertAfter then
        let m := m.setSlibling pnodeSrc (m.node pnodeDst).pnodeSlibling
        some (m.setSlibling pnodeDst (some pnodeSrc))
      else do
        let temp ← (m.node parent).pnodeChild
        if temp = pnodeDst then
          let m := m.setChild parent (some pnodeSrc)
          some (m.setSlibling pnodeSrc (some pnodeDst))
        else do
          let temp ← findPrev n m temp pnodeDst
          -- The node before `pnode_dst` is linked to `pnode_dst`, not to `pnode_src`.
          some (m.setSlibling temp (some pnodeDst))
    some (← cohereChild n m ptreeDst child, true)

def simpleTreeMoveChildrenToChild (n : ℕ) (m : Memory) (ptreeDst : TreeId) (pnodeDst : NodeId)
    (ptreeSrc : TreeId) (pnodeSrc : NodeId) (opt : TreeOpt) : Option (Memory × Bool) :=
  if opt ≠ .addFirst ∧ opt ≠ .addLast then some (m, false)
  else if pnodeDst = pnodeSrc then some (m, true)
  else do
    let met ← meetsAbove n m pnodeDst pnodeSrc
    if met then some (m, false) else
    match (m.node pnodeSrc).pnodeChild with
    | none => some (m, true)
    | some child =>
      let m ← simpleTreeStripGroup n m ptreeSrc child
      let m := m.setChild pnodeSrc none
      let m := m.addChildren pnodeDst (m.node pnodeSrc).nodeChildren
      let m := m.setChildren pnodeSrc 0
      let (m, _) ← setParents n m child (some pnodeDst)
      match (m.node pnodeDst).pnodeChild with
      | none =>
        let m := m.setChild pnodeDst (some child)
        some (← simpleTreeCohereGroup n m ptreeDst child, true)
      | some temp =>
        if opt = .addLast then
          let last ← (← findLast n m temp none)
          let m := m.setSlibling last (some child)
          some (← simpleTreeCohereGroup n m ptreeDst child, true)
        else
          let last ← findLast n m child none
          let m ← simpleTreeCohereGroup n m ptreeDst child
          let last ← last
          let m := m.setSlibling last (m.node pnodeDst).pnodeChild
          some (m.setChild pnodeDst (some child), true)

def simpleTreeMoveChildrenToSlibling (n : ℕ) (m : Memory) (ptreeDst : TreeId)
    (pnodeDst : NodeId) (ptreeSrc : TreeId) (pnodeSrc : NodeId) (opt : TreeOpt) :
    Option (Memory × Bool) :=
  if some pnodeDst = (m.tree ptreeDst).root then some (m, false)
  else if opt ≠ .insertBefore ∧ opt ≠ .insertAfter then some (m, false)
  else do
    let met ← meetsAbove n m pnodeDst pnodeSrc
    if met then some (m, false) else
    match (m.node pnodeSrc).pnodeChild with
    | none => some (m, true)
    | some child =>
      let m ← simpleTreeStripGroup n m ptreeSrc child
      let m := m.setChild pnodeSrc none
      let parent ← (m.node pnodeDst).pnodeParent
      let m := m.addChildren parent (m.node pnodeSrc).nodeChildren
      let m := m.setChildren pnodeSrc 0
      let (m, final) ← setParents n m child (some parent)
      let m ← simpleTreeCohereGroup n m ptreeDst child
      if opt = .insertBefore then do
        let temp ← (m.node parent).pnodeChild
        if temp = pnodeDst then
          let m := m.setSlibling final (some temp)
          some (m.setChild parent (some child), true)
        else do
          let temp ← findPrev n m temp pnodeDst
          let m := m.setSlibling temp (some child)
          some (m.setSlibling final (some pnodeDst), true)
      else
        let m := m.setSlibling final (m.node pnodeDst).pnodeSlibling
        some (m.setSlibling pnodeDst (some child), true)

/-- The loop of `simple_tree_dup_group`, with the nodes that `dup_func` still hands out, the node
made before and the first one made: what it returns, and the nodes not handed out. -/
def dupLoop : ℕ → Memory → List (Option Dup) → NodeId → NodeId → Option NodeId →
    Option NodeId → Option (Memory × List (Option Dup) × Option NodeId)
  | 0, _, _, _, _, _, _ => none
  | n + 1, m, dups, pnode, parent, prev, ret =>
    match dups with
    | some (dup, node) :: dups => do
      let m := m.set dup node
      let ret := if prev = none then some dup else ret
      let m := m.setParent dup (some parent)
      let m := m.setChildren dup (m.node pnode).nodeChildren
      let (m, dups) ←
        match (m.node pnode).pnodeChild with
        | none => some (m, dups)
        | some child => do
          let (m, dups, temp) ← dupLoop n m dups child dup none none
          some (m.setChild dup temp, dups)
      let next := (m.node pnode).pnodeSlibling
      let m :=
        match prev with
        | none => m
        | some prev => m.setSlibling prev (some dup)
      match next with
      | none => some (m.setSlibling dup none, dups, ret)
      | some next => dupLoop n m dups next parent (some dup) ret
    | dups => some (m, dups.tail, if prev = none then none else ret)

def simpleTreeDupGroup (n : ℕ) (m : Memory) (dups : List (Option Dup)) (pnode parent : NodeId) :
    Option (Memory × List (Option Dup) × Option NodeId) :=
  dupLoop n m dups pnode parent none none

/-- A group that may be empty, duplicated. -/
def dupChild (n : ℕ) (m : Memory) (dups : List (Option Dup)) (parent : NodeId) :
    Option NodeId → Option (Memory × Option NodeId)
  | none => some (m, none)
  | some child => do
    let (m, _, dup) ← simpleTreeDupGroup n m dups child parent
    some (m, dup)

/-- The nodes of a group that may be empty get a new parent. -/
def setChildParents (n : ℕ) (m : Memory) (parent : NodeId) : Option NodeId → Option Memory
  | none => some m
  | some child => do some (← setParents n m child (some parent)).1

def simpleTreeCopyNodeToChild (n : ℕ) (m : Memory) (ptreeDst : TreeId)
    (pnodeDst pnodeSrc : NodeId) (opt : TreeOpt) (dups : List (Option Dup)) :
    Option (Memory × Bool) :=
  if opt ≠ .addFirst ∧ opt ≠ .addLast then some (m, false)
  else
    match dups with
    | some (parent, node) :: dups => do
      let m := m.set parent node
      let (m, child) ← dupChild n m dups parent (m.node pnodeSrc).pnodeChild
      let m := m.setDepth parent ((m.node pnodeDst).nodeDepth + 1)
      let m := m.setChild parent child
      let m := m.setChildren parent (m.node pnodeSrc).nodeChildren
      let m := m.setParent parent (some pnodeDst)
      let m ← setChildParents n m parent child
      let m := m.addNum ptreeDst 1
      let m := m.addChildren pnodeDst 1
      let m ← cohereChild n m ptreeDst child
      match (m.node pnodeDst).pnodeChild with
      | none =>
        let m := m.setSlibling parent none
        some (m.setChild pnodeDst (some parent), true)
      | some temp =>
        if opt = .addFirst then
          let m := m.setSlibling parent (some temp)
          some (m.setChild pnodeDst (some parent), true)
        else
          let last ← (← findLast n m temp none)
          let m := m.setSlibling last (some parent)
          some (m.setSlibling parent none, true)
    | _ => some (m, false)

def simpleTreeCopyNodeToSlibling (n : ℕ) (m : Memory) (ptreeDst : TreeId)
    (pnodeDst pnodeSrc : NodeId) (opt : TreeOpt) (dups : List (Option Dup)) :
    Option (Memory × Bool) :=
  if opt ≠ .insertBefore ∧ opt ≠ .insertAfter then some (m, false)
  else if some pnodeDst = (m.tree ptreeDst).root then some (m, false)
  else
    match dups with
    | some (parent, node) :: dups => do
      let m := m.set parent node
      let (m, child) ← dupChild n m dups parent (m.node pnodeSrc).pnodeChild
      let m := m.setDepth parent (m.node pnodeDst).nodeDepth
      let m := m.setChild parent child
      let m := m.setChildren parent (m.node pnodeSrc).nodeChildren
      let above ← (m.node pnodeDst).pnodeParent
      let m := m.setParent parent (some above)
      let m := m.addChildren above 1
      let m ← setChildParents n m parent child
      let m := m.addNum ptreeDst 1
      let m ← cohereChild n m ptreeDst child
      if opt = .insertBefore then do
        let temp ← (m.node above).pnodeChild
        if temp = pnodeDst then
          let m := m.setSlibling parent (some pnodeDst)
          some (m.setChild above (some parent), true)
        else do
          let temp ← findPrev n m temp pnodeDst
          let m := m.setSlibling temp (some parent)
          some (m.setSlibling parent (some pnodeDst), true)
      else
        let m := m.setSlibling parent (m.node pnodeDst).pnodeSlibling
        some (m.setSlibling pnodeDst (some parent), true)
    | _ => some (m, false)

def simpleTreeCopyChildrenToChild (n : ℕ) (m : Memory) (ptreeDst : TreeId)
    (pnodeDst pnodeSrc : NodeId) (opt : TreeOpt) (dups : List (Option Dup)) :
    Option (Memory × Bool) :=
  if opt ≠ .addFirst ∧ opt ≠ .addLast then some (m, false)
  else
    match (m.node pnodeSrc).pnodeChild with
    | none => some (m, true)
    | some child => do
      match ← simpleTreeDupGroup n m dups child pnodeDst with
      | (m, _, none) => some (m, false)
      | (m, _, some child) =>
        let m ← simpleTreeCohereGroup n m ptreeDst child
        let m := m.addChildren pnodeDst (m.node pnodeSrc).nodeChildren
        match (m.node pnodeDst).pnodeChild with
        | none => some (m.setChild pnodeDst (some child), true)
        | some temp =>
          if opt = .addLast then
            let last ← (← findLast n m temp none)
            some (m.setSlibling last (some child), true)
          else
            let last ← (← findLast n m child none)
            let m := m.setSlibling last (some temp)
            some (m.setChild pnodeDst (some child), true)

/-- The loop that counts a group and finds its last node. -/
def countGroup : ℕ → Memory → NodeId → Option (ℕ × NodeId)
  | 0, _, _ => none
  | n + 1, m, temp =>
    match (m.node temp).pnodeSlibling with
    | none => some (1, temp)
    | some next => do
      let (k, final) ← countGroup n m next
      some (k + 1, final)

def simpleTreeCopyChildrenToSlibling (n : ℕ) (m : Memory) (ptreeDst : TreeId)
    (pnodeDst pnodeSrc : NodeId) (opt : TreeOpt) (dups : List (Option Dup)) :
    Option (Memory × Bool) :=
  if (m.tree ptreeDst).root = some pnodeDst then some (m, false)
  else if opt ≠ .insertBefore ∧ opt ≠ .insertAfter then some (m, false)
  else
    match (m.node pnodeSrc).pnodeChild with
    | none => some (m, true)
    | some child => do
      let parent ← (m.node pnodeDst).pnodeParent
      match ← simpleTreeDupGroup n m dups child parent with
      | (m, _, none) => some (m, false)
      | (m, _, some child) =>
        let (childrenNum, final) ← countGroup n m child
        let m ← simpleTreeCohereGroup n m ptreeDst child
        let m := m.addChildren parent childrenNum
        if opt = .insertAfter then
          let m := m.setSlibling final (m.node pnodeDst).pnodeSlibling
          some (m.setSlibling pnodeDst (some child), true)
        else do
          let temp ← (m.node parent).pnodeChild
          if temp = pnodeDst then
            let m := m.setSlibling final (some temp)
            some (m.setChild parent (some child), true)
          else do
            let temp ← findPrev n m temp pnodeDst
            let m := m.setSlibling temp (some child)
            some (m.setSlibling final (some pnodeDst), true)

def simpleTreeDup (n : ℕ) (m : Memory) (ptreeSrc ptreeDst : TreeId) (dups : List (Option Dup)) :
    Option (Memory × Bool) :=
  match (m.tree ptreeSrc).root with
  | none => some (m, false)
  | some root =>
    match dups with
    | some (dup, node) :: dups => do
      let m := m.set dup node
      let m := m.set dup ⟨none, none, none, 0, 0⟩
      let (m, child) ← dupChild n m dups dup (m.node root).pnodeChild
      let (m, childrenNum) ←
        match child with
        | none => some (m, 0)
        | some child => do
          let m ← simpleTreeCohereGroup n m ptreeDst child
          let (k, _) ← countGroup n m child
          some (m, k)
      let m := m.setChild dup child
      let m := m.setChildren dup childrenNum
      let m := m.setRoot ptreeDst (some dup)
      some (m.setNum ptreeDst (m.tree ptreeSrc).nodesNum, true)
    | _ => some (m, false)

end SteepSystem.SimpleTrees
