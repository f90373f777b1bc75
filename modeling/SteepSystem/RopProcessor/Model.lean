import SteepSystem.Lib.Forest
import SteepSystem.HashTable

/-!
The logon maps of `rop_processor.c`. A session holds a map of 256 slots; a slot refers to a
logon item, which is a tree of objects with the logon at its root and a hash table from handle
numbers to the nodes of that tree. All sessions share the pools the nodes and items come from
and the table that counts the logons on each mailbox directory.

The operations return `none` where the behaviour of the C code is undefined.
-/

namespace SteepSystem.RopProcessor

open SteepSystem.Lib

def maxHandleNum : ℕ := 500

def hgrowingSize : ℕ := 250

def maxHandlesOnContext : ℕ := 10

inductive ObjectType
  | logon | folder | message | attachment | table | stream | fastdownctx | fastupctx
  | icsdownctx | icsupctx | subscription
  deriving DecidableEq

/-- `addr` tells the buffer of this node from those of all other nodes. -/
structure ObjectNode where
  addr : ℕ
  handle : ℕ
  type : ObjectType
  pobject : ℕ
  deriving DecidableEq

/-- What the handle table holds for a node: its number, and a pointer to it. -/
def ObjectNode.entry (n : ObjectNode) : ℕ × ℕ := (n.handle, n.addr)

structure SimpleTree where
  root : Forest ObjectNode
  nodesNum : ℕ
  deriving DecidableEq

def simpleTreeInit : SimpleTree := ⟨.nil, 0⟩

def simpleTreeSetRoot (ptree : SimpleTree) (pnode : ObjectNode) : SimpleTree :=
  if ptree.root = .nil then ⟨.node pnode .nil .nil, 1⟩ else ptree

def simpleTreeAddChild (ptree : SimpleTree) (pnodeBase : ℕ) (pnode : ObjectNode) : SimpleTree :=
  ⟨ptree.root.addLast (fun n => n.addr == pnodeBase) pnode, ptree.nodesNum + 1⟩

def SimpleTree.nodeAt (ptree : SimpleTree) (pnode : ℕ) : Option ObjectNode :=
  ptree.root.nodes.find? fun n => n.addr == pnode

/-- The nodes that go when the node at `pnode` is destroyed. -/
def SimpleTree.doomed (ptree : SimpleTree) (pnode : ℕ) : List ObjectNode :=
  ptree.root.subtreeAt fun n => n.addr == pnode

def simpleTreeDestroyNode (ptree : SimpleTree) (pnode : ℕ) : SimpleTree :=
  ⟨ptree.root.remove fun n => n.addr == pnode, ptree.nodesNum - (ptree.doomed pnode).length⟩

structure LogonItem where
  phash : HashTable ℕ ℕ
  tree : SimpleTree
  deriving DecidableEq

/-- A slot of a logon map. `dangling` is a pointer to an item that went back to its pool. -/
inductive Slot
  | null
  | item (plogitem : LogonItem)
  | dangling
  deriving DecidableEq

structure LibBuffer where
  itemNum : ℕ
  allocatedNum : ℕ
  deriving DecidableEq

def libBufferGet (mBuf : LibBuffer) : Option LibBuffer :=
  if mBuf.allocatedNum ≥ mBuf.itemNum then none
  else some { mBuf with allocatedNum := mBuf.allocatedNum + 1 }

/-- `count` buffers go back. -/
def libBufferPut (mBuf : LibBuffer) (count : ℕ) : LibBuffer :=
  { mBuf with allocatedNum := mBuf.allocatedNum - count }

/-- What the sessions share. `nextAddr` is an address that no node has had yet. -/
structure Globals where
  logonHash : HashTable String ℕ
  logmapAllocator : LibBuffer
  logitemAllocator : LibBuffer
  handleAllocator : LibBuffer
  nextAddr : ℕ

/-- A session: the handle number it gives out next, its upload contexts and its logon map. -/
structure HandleData where
  lastHandle : ℕ
  upctxRef : ℤ
  plogmap : Fin 256 → Slot

/-- A session as it is opened. -/
def HandleData.init : HandleData := ⟨0, 0, fun _ => .null⟩

def HandleData.setSlot (s : HandleData) (logonId : Fin 256) (slot : Slot) : HandleData :=
  { s with plogmap := Function.update s.plogmap logonId slot }

/-- A `uint32_t` returned as an `int`. -/
def asInt (n : ℕ) : ℤ := if n < 2 ^ 31 then n else n - 2 ^ 32

section

variable (logonObjectGetDir : ℕ → String)

/-- One logon less on the directory of the root object. -/
def releaseLogonRef (w : Globals) (proot : ObjectNode) : Option Globals :=
  let dir := logonObjectGetDir proot.pobject
  match w.logonHash.query dir with
  -- The count is stepped down through a null pointer.
  | none => none
  | some ref =>
    let hash := w.logonHash.store dir (ref - 1)
    some { w with logonHash := if ref - 1 = 0 then hash.remove dir else hash }

/-- The second part is what becomes of the item, `none` when it went back to its pool. -/
def ropProcessorReleaseObjnode (w : Globals) (plogitem : LogonItem) (pobjnode : ℕ) :
    Option (Globals × Option LogonItem) :=
  let doomed := plogitem.tree.doomed pobjnode
  let freeNodes (w : Globals) : Globals :=
    { w with handleAllocator := libBufferPut w.handleAllocator doomed.length }
  match plogitem.tree.root.rootValue.filter fun n => n.addr == pobjnode with
  | some proot =>
    (releaseLogonRef logonObjectGetDir w proot).map fun w =>
      let w := freeNodes w
      ({ w with logitemAllocator := libBufferPut w.logitemAllocator 1 }, none)
  | none =>
    some (freeNodes w, some
      ⟨doomed.foldl (fun t n => t.remove n.entry.1) plogitem.phash,
        simpleTreeDestroyNode plogitem.tree pobjnode⟩)

def ropProcessorReleaseLogonItem (w : Globals) (plogitem : LogonItem) : Option Globals :=
  match plogitem.tree.root.rootValue with
  | none => some w
  | some proot => (ropProcessorReleaseObjnode logonObjectGetDir w plogitem proot.addr).map Prod.fst

/-- The item in a slot is released and the slot cleared. -/
def releaseSlot (w : Globals) (s : HandleData) (logonId : Fin 256) :
    Option (Globals × HandleData) :=
  match s.plogmap logonId with
  | .null => some (w, s)
  | .dangling => none
  | .item plogitem =>
    (ropProcessorReleaseLogonItem logonObjectGetDir w plogitem).map fun w =>
      (w, s.setSlot logonId .null)

def ropProcessorReleaseLogmap (w : Globals) (s : HandleData) : Option Globals :=
  ((List.finRange 256).foldlM (fun ws i => releaseSlot logonObjectGetDir ws.1 ws.2 i) (w, s)).map
    fun ws => { ws.1 with logmapAllocator := libBufferPut ws.1.logmapAllocator 1 }

end

/-- The node a new one is put under, `none` for a new root, or the error code. -/
def parentOf (plogitem : LogonItem) (parentHandle : ℤ) : Except ℤ (Option ℕ) :=
  if parentHandle < 0 then
    if plogitem.tree.root ≠ .nil then .error (-4) else .ok none
  else if parentHandle < 0x7FFFFFFF then
    match plogitem.phash.query parentHandle.toNat with
    | none => .error (-5)
    | some pparent => .ok (some pparent)
  else .error (-6)

/-- The new node, already in the handle table `phash`, is put in the tree. -/
def linkNode (s : HandleData) (logonId : Fin 256) (plogitem : LogonItem)
    (phash : HashTable ℕ ℕ) (ppparent : Option ℕ) (pobjnode : ObjectNode) : HandleData :=
  let tree := match ppparent with
    | none => simpleTreeSetRoot plogitem.tree pobjnode
    | some pparent => simpleTreeAddChild plogitem.tree pparent pobjnode
  let s := s.setSlot logonId (.item ⟨phash, tree⟩)
  if pobjnode.type = .icsupctx then { s with upctxRef := s.upctxRef + 1 } else s

/-- A node that has its buffer and its number is entered in the table, which grows when the
entry is refused, and put in the tree. -/
def enterNode (w : Globals) (s : HandleData) (logonId : Fin 256) (plogitem : LogonItem)
    (ppparent : Option ℕ) (pobjnode : ObjectNode) (grown : Bool) :
    Option (ℤ × Globals × HandleData) :=
  let added := plogitem.phash.add pobjnode.handle pobjnode.addr
  if added.1 = 1 then
    some (asInt pobjnode.handle, w, linkNode s logonId plogitem added.2 ppparent pobjnode)
  else if grown then
    match ppparent with
    -- `*ppparent` is read from the table that has just been freed.
    | some _ => none
    | none =>
      let phash := (HashTable.init (plogitem.phash.capacity + hgrowingSize)).addAll
        plogitem.phash.items
      let phash := (phash.add pobjnode.handle pobjnode.addr).2
      some (asInt pobjnode.handle, w, linkNode s logonId plogitem phash ppparent pobjnode)
  else
    some (-8, { w with handleAllocator := libBufferPut w.handleAllocator 1 }, s)

/-- `numbered` and `grown` tell whether a handle number and the memory for a larger table are
granted, should the call ask for them. -/
def ropProcessorAddObjectHandle (w : Globals) (s : HandleData) (logonId : Fin 256)
    (parentHandle : ℤ) (type : ObjectType) (pobject : ℕ) (numbered grown : Bool) :
    Option (ℤ × Globals × HandleData) :=
  match s.plogmap logonId with
  | .null => some (-1, w, s)
  | .dangling => none
  | .item plogitem =>
    if plogitem.tree.nodesNum > maxHandleNum then some (-3, w, s)
    else match parentOf plogitem parentHandle with
      | .error code => some (code, w, s)
      | .ok ppparent =>
        match libBufferGet w.handleAllocator with
        | none => some (-7, w, s)
        | some pool =>
          let pobjnode : ObjectNode := ⟨w.nextAddr, s.lastHandle, type, pobject⟩
          let w := { w with handleAllocator := pool, nextAddr := w.nextAddr + 1 }
          if numbered then
            enterNode w { s with lastHandle := (s.lastHandle + 1) % 2 ^ 32 } logonId plogitem
              ppparent pobjnode grown
          -- The buffer is not given back.
          else some (-8, w, s)

section

variable (logonObjectGetDir : ℕ → String)

/-- One logon more on the directory of the new root object. -/
def addLogonRef (w : Globals) (plogon : ℕ) : Globals :=
  let dir := logonObjectGetDir plogon
  { w with logonHash := match w.logonHash.query dir with
      | none => (w.logonHash.add dir 1).2
      | some ref => w.logonHash.store dir (ref + 1) }

/-- `hashed` tells whether the memory for the handle table is granted. -/
def ropProcessorCreateLogonItem (w : Globals) (s : HandleData) (logonId : Fin 256)
    (plogon : ℕ) (hashed numbered grown : Bool) : Option (ℤ × Globals × HandleData) :=
  match releaseSlot logonObjectGetDir w s logonId with
  | none => none
  | some (w, s) =>
    match libBufferGet w.logitemAllocator with
    | none => some (-1, w, s)
    | some pool =>
      if hashed then
        let w := { w with logitemAllocator := pool }
        let s := s.setSlot logonId (.item ⟨.init hgrowingSize, simpleTreeInit⟩)
        match ropProcessorAddObjectHandle w s logonId (-1) .logon plogon numbered grown with
        | none => none
        | some (handle, w, s) =>
          if handle < 0 then
            -- The item goes back to its pool, the slot keeps the pointer.
            some (-3, { w with logitemAllocator := libBufferPut w.logitemAllocator 1 },
              s.setSlot logonId .dangling)
          else some (handle, addLogonRef logonObjectGetDir w plogon, s)
      else some (-2, w, s)

def ropProcessorReleaseObjectHandle (w : Globals) (s : HandleData) (logonId : Fin 256)
    (objHandle : ℕ) : Option (Globals × HandleData) :=
  if objHandle ≥ 0x7FFFFFFF then some (w, s)
  else match s.plogmap logonId with
    | .null => some (w, s)
    | .dangling => none
    | .item plogitem =>
      match plogitem.phash.query objHandle with
      | none => some (w, s)
      | some pobjnode =>
        match plogitem.tree.nodeAt pobjnode with
        -- The type is read from a buffer that is not a node of the tree.
        | none => none
        | some n =>
          let s := if n.type = .icsupctx then { s with upctxRef := s.upctxRef - 1 } else s
          (ropProcessorReleaseObjnode logonObjectGetDir w plogitem pobjnode).map fun r =>
            match r with
            | (w, none) => (w, s.setSlot logonId .null)
            | (w, some plogitem) => (w, s.setSlot logonId (.item plogitem))

end

/-- The type and the object a handle stands for. -/
def ropProcessorGetObject (s : HandleData) (logonId : Fin 256) (objHandle : ℕ) :
    Option (ObjectType × ℕ) :=
  if objHandle ≥ 0x7FFFFFFF then none
  else match s.plogmap logonId with
    | .null => none
    | .dangling => none
    | .item plogitem =>
      match plogitem.phash.query objHandle with
      | none => none
      | some pobjnode => (plogitem.tree.nodeAt pobjnode).map fun n => (n.type, n.pobject)

/-- The server: the shared tables and pools, and the sessions that are open. -/
structure World where
  globals : Globals
  sessions : List HandleData

/-- As `rop_processor_run` leaves it. -/
def World.init (contextNum averageHandles : ℕ) : World where
  globals :=
    { logonHash := .init (contextNum * 256)
      logmapAllocator := ⟨contextNum * maxHandlesOnContext, 0⟩
      logitemAllocator := ⟨256 * contextNum, 0⟩
      handleAllocator := ⟨averageHandles * contextNum, 0⟩
      nextAddr := 0 }
  sessions := []

/-- A call, with the session it is made in and the grants it meets. -/
inductive Call
  | createLogmap
  | createLogonItem (session : ℕ) (logonId : Fin 256) (plogon : ℕ) (hashed numbered grown : Bool)
  | addObjectHandle (session : ℕ) (logonId : Fin 256) (parentHandle : ℤ) (type : ObjectType)
      (pobject : ℕ) (numbered grown : Bool)
  | releaseObjectHandle (session : ℕ) (logonId : Fin 256) (objHandle : ℕ)
  | releaseLogmap (session : ℕ)

/-- The world after a call, `none` where the call has no defined effect or its session is not
open. -/
def exec (logonObjectGetDir : ℕ → String) (w : World) : Call → Option World
  | .createLogmap =>
    some <| match libBufferGet w.globals.logmapAllocator with
      | none => w
      | some pool =>
        ⟨{ w.globals with logmapAllocator := pool }, w.sessions ++ [.init]⟩
  | .createLogonItem i logonId plogon hashed numbered grown => do
    let s ← w.sessions[i]?
    let r ← ropProcessorCreateLogonItem logonObjectGetDir w.globals s logonId plogon hashed
      numbered grown
    return ⟨r.2.1, w.sessions.set i r.2.2⟩
  | .addObjectHandle i logonId parentHandle type pobject numbered grown => do
    let s ← w.sessions[i]?
    let r ← ropProcessorAddObjectHandle w.globals s logonId parentHandle type pobject numbered
      grown
    return ⟨r.2.1, w.sessions.set i r.2.2⟩
  | .releaseObjectHandle i logonId objHandle => do
    let s ← w.sessions[i]?
    let r ← ropProcessorReleaseObjectHandle logonObjectGetDir w.globals s logonId objHandle
    return ⟨r.1, w.sessions.set i r.2⟩
  | .releaseLogmap i => do
    let s ← w.sessions[i]?
    let globals ← ropProcessorReleaseLogmap logonObjectGetDir w.globals s
    return ⟨globals, w.sessions.eraseIdx i⟩

end SteepSystem.RopProcessor
