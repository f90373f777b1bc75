import SteepSystem.Lib.Rings

/-!
The lists of `double_list.c`. All lists and nodes are in one memory; a null pointer is `none`. What
dereferences a null pointer has no result.
-/

namespace SteepSystem.DoubleLists

open SteepSystem.Lib.Rings

/-- `DOUBLE_LIST` -/
structure DoubleList (ν : Type) where
  phead : Option ν
  nodesNum : ℕ

/-- The links of the nodes, `pnext` and `pprev`, and the lists. -/
structure Memory (ν κ : Type) where
  links : Links ν
  list : κ → DoubleList ν

namespace Memory

variable {ν κ : Type} [DecidableEq ν] [DecidableEq κ] (m : Memory ν κ)

def setNext (v : ν) (p : Option ν) : Memory ν κ :=
  { m with links := { m.links with next := Function.update m.links.next v p } }

def setPrev (v : ν) (p : Option ν) : Memory ν κ :=
  { m with links := { m.links with prev := Function.update m.links.prev v p } }

def setHead (plist : κ) (p : Option ν) : Memory ν κ :=
  { m with list := Function.update m.list plist { m.list plist with phead := p } }

def setNum (plist : κ) (n : ℕ) : Memory ν κ :=
  { m with list := Function.update m.list plist { m.list plist with nodesNum := n } }

end Memory

variable {ν κ : Type} [DecidableEq ν] [DecidableEq κ] (m : Memory ν κ)

/-- `double_list_init`, `double_list_free` -/
def doubleListInit (plist : κ) : Memory ν κ := (m.setHead plist none).setNum plist 0

/-- The new node between the tail and the head, as both `double_list_insert_as_head` and
`double_list_append_as_tail` link it. -/
def linkBetween (phead pnode : ν) : Option (Memory ν κ) := do
  let ptail := m.links.prev phead
  let m := m.setNext pnode (some phead)
  let m := m.setPrev pnode ptail
  let m := m.setPrev phead (some pnode)
  if m.links.next phead = some phead then return m.setNext phead (some pnode)
  else return m.setNext (← ptail) (some pnode)

/-- The first node of a list. -/
def linkAlone (plist : κ) (pnode : ν) : Memory ν κ :=
  let m := m.setHead plist (some pnode)
  let m := m.setPrev pnode (some pnode)
  let m := m.setNext pnode (some pnode)
  m.setNum plist 1

def doubleListInsertAsHead (plist : κ) (pnode : ν) : Option (Memory ν κ) :=
  match (m.list plist).phead with
  | none => some (linkAlone m plist pnode)
  | some phead => do
    let m ← linkBetween m phead pnode
    let m := m.setHead plist (some pnode)
    return m.setNum plist ((m.list plist).nodesNum + 1)

def doubleListAppendAsTail (plist : κ) (pnode : ν) : Option (Memory ν κ) :=
  match (m.list plist).phead with
  | none => some (linkAlone m plist pnode)
  | some phead => do
    let m ← linkBetween m phead pnode
    return m.setNum plist ((m.list plist).nodesNum + 1)

def doubleListInsertBefore (plist : κ) (pbaseNode pnode : ν) : Option (Memory ν κ) :=
  if some pbaseNode = (m.list plist).phead then doubleListInsertAsHead m plist pnode
  else do
    let ptemp := m.links.prev pbaseNode
    let m := m.setPrev pbaseNode (some pnode)
    let m := m.setNext (← ptemp) (some pnode)
    let m := m.setNext pnode (some pbaseNode)
    let m := m.setPrev pnode ptemp
    return m.setNum plist ((m.list plist).nodesNum + 1)

/-- The insertion behind a node. -/
def doubleListAppendAfter (plist : κ) (pbaseNode pnode : ν) : Option (Memory ν κ) := do
  let phead ← (m.list plist).phead
  if some pbaseNode = m.links.prev phead then doubleListAppendAsTail m plist pnode
  else
    let ptemp := m.links.next pbaseNode
    let m := m.setNext pbaseNode (some pnode)
    let m := m.setPrev (← ptemp) (some pnode)
    let m := m.setNext pnode ptemp
    let m := m.setPrev pnode (some pbaseNode)
    return m.setNum plist ((m.list plist).nodesNum + 1)

/-- The links of a node that has been taken out. -/
def unlink (pnode : ν) : Memory ν κ := (m.setPrev pnode none).setNext pnode none

def doubleListRemove (plist : κ) (pnode : ν) : Option (Memory ν κ) := do
  let phead ← (m.list plist).phead
  let ptail := m.links.prev phead
  if phead = pnode then
    if ptail = some phead then
      let m := m.setHead plist none
      return (unlink m pnode).setNum plist 0
    else if ptail = m.links.next phead then
      let tail ← ptail
      let m := m.setNext tail ptail
      let m := m.setPrev tail ptail
      let m := m.setHead plist ptail
      return (unlink m pnode).setNum plist ((m.list plist).nodesNum - 1)
    else
      let m := m.setPrev (← m.links.next phead) ptail
      let m := m.setNext (← ptail) (m.links.next phead)
      let m := m.setHead plist (m.links.next phead)
      return (unlink m pnode).setNum plist ((m.list plist).nodesNum - 1)
  else
    let m := m.setPrev (← m.links.next pnode) (m.links.prev pnode)
    let m := m.setNext (← m.links.prev pnode) (m.links.next pnode)
    return (unlink m pnode).setNum plist ((m.list plist).nodesNum - 1)

def doubleListGetFromHead (plist : κ) : Option (Option ν × Memory ν κ) :=
  match (m.list plist).phead with
  | none => some (none, m)
  | some pnode => do return (some pnode, ← doubleListRemove m plist pnode)

def doubleListGetFromTail (plist : κ) : Option (Option ν × Memory ν κ) :=
  match (m.list plist).phead with
  | none => some (none, m)
  | some phead =>
    if some phead = m.links.next phead then
      let m := m.setHead plist none
      some (some phead, m.setNum plist 0)
    else do
      let pnode ← m.links.prev phead
      return (some pnode, ← doubleListRemove m plist pnode)

/-- The links between two lists that both have nodes, in the four cases of the source. -/
def linkLists (pheadDes phead : ν) (ptailDes ptail : Option ν) : Option (Memory ν κ) :=
  if some pheadDes = ptailDes then
    if some phead = ptail then do
      let m := m.setNext pheadDes (some phead)
      let m := m.setPrev pheadDes (some phead)
      let m := m.setNext phead (some pheadDes)
      return m.setPrev phead (some pheadDes)
    else do
      let m := m.setNext pheadDes (some phead)
      let m := m.setPrev pheadDes ptail
      let m := m.setPrev phead (some pheadDes)
      return m.setNext (← ptail) (some pheadDes)
  else if some phead = ptail then do
    let m := m.setPrev pheadDes (some phead)
    let m := m.setNext (← ptailDes) (some phead)
    let m := m.setPrev phead ptailDes
    return m.setNext phead (some pheadDes)
  else do
    let m := m.setPrev pheadDes ptail
    let m := m.setNext (← ptailDes) (some phead)
    let m := m.setPrev phead ptailDes
    return m.setNext (← ptail) (some pheadDes)

/-- The count of the source stays, and so does its head if the destination is empty. -/
def doubleListAppendList (plistDes plist : κ) : Option (Memory ν κ) :=
  match (m.list plistDes).phead, (m.list plist).phead with
  | none, phead =>
    let m := m.setHead plistDes phead
    some (m.setNum plistDes (m.list plist).nodesNum)
  | some _, none => some m
  | some pheadDes, some phead => do
    let m ← linkLists (m.setHead plist none) pheadDes phead (m.links.prev pheadDes)
      (m.links.prev phead)
    return m.setNum plistDes ((m.list plistDes).nodesNum + (m.list plist).nodesNum)

/-- Where a walk back along the links begins. -/
def doubleListGetTail (plist : κ) : Option ν :=
  match (m.list plist).phead with
  | none => none
  | some phead => m.links.prev phead

end SteepSystem.DoubleLists
