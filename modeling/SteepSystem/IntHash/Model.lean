import SteepSystem.DoubleLists.Model

/-!
The hash tables of `int_hash.c`. The items are in a pool of slots (`lib_buffer.c`); each has a node
in the list of its bucket and one in the list for iteration. An operation that dereferences a null
pointer, or does not end within its fuel, has no result.
-/

namespace SteepSystem.IntHash

open SteepSystem.DoubleLists

/-- The nodes of the item in a slot. -/
inductive Node
  | listNode (i : ℕ)
  | iterNode (i : ℕ)
  deriving DecidableEq

/-- `pdata` -/
def Node.pdata : Node → ℕ
  | listNode i => i
  | iterNode i => i

/-- The lists of a table: `hash_map` and `iter_list`. -/
inductive ListName
  | hashMap (index : ℕ)
  | iterList
  deriving DecidableEq

/-- `INT_HASH_ITEM` with the value that follows it; the nodes are those of its slot. -/
structure IntHashItem (ν : Type) where
  hashKey : Int32
  mapIndex : ℕ
  value : ν

/-- `LIB_BUFFER`, with slots for addresses. -/
structure LibBuffer where
  itemNum : ℕ
  freeList : List ℕ
  curHeapHead : ℕ
  allocatedNum : ℕ

def libBufferInit (itemNum : ℕ) : LibBuffer := ⟨itemNum, [], 0, 0⟩

def libBufferGet (mBuf : LibBuffer) : Option (ℕ × LibBuffer) :=
  match mBuf.freeList with
  | i :: rest => some (i, { mBuf with freeList := rest, allocatedNum := mBuf.allocatedNum + 1 })
  | [] =>
    if mBuf.allocatedNum ≥ mBuf.itemNum then none
    else some (mBuf.curHeapHead, { mBuf with
      curHeapHead := mBuf.curHeapHead + 1, allocatedNum := mBuf.allocatedNum + 1 })

def libBufferPut (mBuf : LibBuffer) (item : ℕ) : LibBuffer :=
  { mBuf with freeList := item :: mBuf.freeList, allocatedNum := mBuf.allocatedNum - 1 }

/-- `INT_HASH_TABLE` -/
structure IntHashTable (ν : Type) where
  capacity : ℕ
  entryNum : ℕ
  itemNum : ℕ
  lists : Memory Node ListName
  bufPool : LibBuffer
  /-- What the slots of the pool hold; a slot that has been put back is zeroed. -/
  items : ℕ → Option (IntHashItem ν)
  hashFunc : Int32 → UInt64

/-- `INT_HASH_ITER`. A position below zero has wrapped. -/
structure IntHashIter where
  curNode : Option Node
  iterCurrPos : ℤ

variable {ν : Type} (ptbl : IntHashTable ν)

def intHashInit (maxItems : ℕ) (fn : Int32 → UInt64) : Option (IntHashTable ν) :=
  if maxItems = 0 then none
  else some {
    capacity := maxItems
    entryNum := 8 * maxItems
    itemNum := 0
    lists := ⟨⟨fun _ => none, fun _ => none⟩, fun _ => ⟨none, 0⟩⟩
    bufPool := libBufferInit maxItems
    items := fun _ => none
    hashFunc := fn }

/-- Where a key belongs. -/
def IntHashTable.index (key : Int32) : ℕ := (ptbl.hashFunc key).toNat % ptbl.entryNum

/-- `lib_buffer_put` of an item of the table -/
def IntHashTable.put (i : ℕ) : IntHashTable ν :=
  { ptbl with bufPool := libBufferPut ptbl.bufPool i, items := Function.update ptbl.items i none }

/-- From a node of a bucket on, until the head comes again. -/
def findLoop (key : Int32) (phead : Node) : ℕ → Option Node → Option (Option Node)
  | 0, _ => none
  | fuel + 1, next =>
    if next = some phead then some none
    else do
      let node ← next
      let item ← ptbl.items node.pdata
      if key = item.hashKey then some (some node)
      else findLoop key phead fuel (ptbl.lists.links.next node)

/-- The node with a key in its bucket, as `int_hash_add`, `int_hash_query` and `int_hash_remove`
look for it. -/
def findNode (fuel : ℕ) (key : Int32) : Option (Option Node) :=
  match (ptbl.lists.list (.hashMap (ptbl.index key))).phead with
  | none => some none
  | some phead => do
    let item ← ptbl.items phead.pdata
    if key = item.hashKey then some (some phead)
    else findLoop ptbl key phead fuel (ptbl.lists.links.next phead)

def intHashAdd (fuel : ℕ) (key : Int32) (value : ν) : Option (ℤ × IntHashTable ν) :=
  if ptbl.itemNum ≥ ptbl.capacity then some (-2, ptbl)
  else
    match libBufferGet ptbl.bufPool with
    | none => some (-3, ptbl)
    | some (i, bufPool) => do
      let index := ptbl.index key
      let ptbl := { ptbl with
        bufPool := bufPool, items := Function.update ptbl.items i (some ⟨key, index, value⟩) }
      match ← findNode ptbl fuel key with
      | some _ => some (-4, ptbl.put i)
      | none =>
        let lists ← doubleListInsertAsHead ptbl.lists (.hashMap index) (.listNode i)
        let lists ← doubleListAppendAsTail lists .iterList (.iterNode i)
        some (1, { ptbl with lists := lists, itemNum := ptbl.itemNum + 1 })

def intHashQuery (fuel : ℕ) (key : Int32) : Option (Option ν) := do
  match ← findNode ptbl fuel key with
  | none => some none
  | some node =>
    let item ← ptbl.items node.pdata
    some (some item.value)

/-- An item out of both its lists and back into the pool. -/
def IntHashTable.drop (index i : ℕ) : Option (IntHashTable ν) := do
  let lists ← doubleListRemove ptbl.lists (.hashMap index) (.listNode i)
  let lists ← doubleListRemove lists .iterList (.iterNode i)
  some { ptbl.put i with lists := lists, itemNum := ptbl.itemNum - 1 }

def intHashRemove (fuel : ℕ) (key : Int32) : Option (ℤ × IntHashTable ν) := do
  match ← findNode ptbl fuel key with
  | none => some (-2, ptbl)
  | some node =>
    let ptbl ← ptbl.drop (ptbl.index key) node.pdata
    some (1, ptbl)

def intHashIterInit : IntHashIter := ⟨none, 0⟩

variable (piter : IntHashIter)

def intHashIterBegin : IntHashIter :=
  { piter with curNode := (ptbl.lists.list .iterList).phead }

def intHashIterDone : Bool :=
  piter.iterCurrPos < 0 || (ptbl.itemNum : ℤ) ≤ piter.iterCurrPos

def intHashIterGetValue : Option (Int32 × ν) := do
  let node ← piter.curNode
  let item ← ptbl.items node.pdata
  some (item.hashKey, item.value)

def intHashIterForward : IntHashIter :=
  match piter.curNode with
  | none => ⟨(ptbl.lists.list .iterList).phead, piter.iterCurrPos + 1⟩
  | some node => ⟨ptbl.lists.links.next node, piter.iterCurrPos + 1⟩

def intHashIterRemove : Option (ℤ × IntHashTable ν × IntHashIter) :=
  if ptbl.itemNum < 1 then some (-2, ptbl, piter)
  else
    match piter.curNode with
    | none => some (-3, ptbl, piter)
    | some node => do
      let curNode := if some node = (ptbl.lists.list .iterList).phead ∨ ptbl.itemNum ≤ 1 then none
        else ptbl.lists.links.prev node
      let item ← ptbl.items node.pdata
      let ptbl ← ptbl.drop item.mapIndex node.pdata
      some (1, ptbl, ⟨curNode, piter.iterCurrPos - 1⟩)

/-- The rounds of an iteration that removes the items whose keys are to go. -/
def iterateLoop (gone : Int32 → Bool) :
    ℕ → IntHashTable ν → IntHashIter → Option (List (Int32 × ν) × IntHashTable ν × IntHashIter)
  | 0, _, _ => none
  | fuel + 1, ptbl, piter =>
    if intHashIterDone ptbl piter then some ([], ptbl, piter)
    else do
      let e ← intHashIterGetValue ptbl piter
      let (ptbl, piter) ←
        if gone e.1 then (intHashIterRemove ptbl piter).map (·.2) else some (ptbl, piter)
      let (visited, ptbl, piter) ←
        iterateLoop gone fuel ptbl (intHashIterForward ptbl piter)
      some (e :: visited, ptbl, piter)

/-- A whole iteration, as the comment of `int_hash_iter_begin` has it. -/
def iterate (fuel : ℕ) (gone : Int32 → Bool) :
    Option (List (Int32 × ν) × IntHashTable ν × IntHashIter) :=
  iterateLoop gone fuel ptbl (intHashIterBegin ptbl piter)

end SteepSystem.IntHash
