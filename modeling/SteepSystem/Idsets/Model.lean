import SteepSystem.Lib.Ranges
import SteepSystem.RopUtil

/-!
Sets of entry identifiers (`LIBRARY/mapi_lib/idset.c`): one node per replica, each with a
list of ranges of counter values, and the calls that change or query such a set.

A call that returns `BOOL` is the pair of its result and the set it leaves behind; memory is
always granted. The scans over a `DOUBLE_LIST` keep the nodes already passed in `before`,
the latest first.
-/

namespace SteepSystem.Idsets.Model

open SteepSystem.Lib.Ranges SteepSystem.RopUtil

abbrev RangeNode := Range ℕ

structure ReplidNode where
  replid : ℕ
  rangeList : List RangeNode
  deriving DecidableEq, Repr

inductive ReplType
  | id | guid
  deriving DecidableEq, Repr

structure Idset where
  bSerialize : Bool
  replType : ReplType
  replList : List ReplidNode
  deriving DecidableEq, Repr

def idsetInit (bSerialize : Bool) (replType : ReplType) : Idset := ⟨bSerialize, replType, []⟩

def idsetClear (pset : Idset) : Idset := { pset with replList := [] }

def idsetCheckEmpty (pset : Idset) : Bool := pset.replList.isEmpty

/-- `v - 1` and `v + 1` on `uint64_t`. -/
def dec64 (v : ℕ) : ℕ := (v + (2 ^ 64 - 1)) % 2 ^ 64
def inc64 (v : ℕ) : ℕ := (v + 1) % 2 ^ 64

/-- The range list of the first node for `replid`. -/
def rangeListOf (nodes : List ReplidNode) (replid : ℕ) : List RangeNode :=
  match nodes.find? fun n => n.replid = replid with
  | some n => n.rangeList
  | none => []

/-- Change the range list of the first node for `replid`; a node made for it goes to the tail. -/
def updateRepl (replid : ℕ) (f : List RangeNode → List RangeNode) :
    List ReplidNode → List ReplidNode
  | [] => [⟨replid, f []⟩]
  | n :: ns =>
    if n.replid = replid then ⟨n.replid, f n.rangeList⟩ :: ns else n :: updateRepl replid f ns

/-- The loop of `idset_append_internal`. -/
def appendScan (value : ℕ) : List RangeNode → List RangeNode → List RangeNode
  | before, [] => before.reverse ++ [⟨value, value⟩]
  | before, n :: rest =>
    if n.low ≤ value ∧ value ≤ n.high then before.reverse ++ n :: rest
    else if value = dec64 n.low then
      match before with
      | [] => ⟨value, n.high⟩ :: rest
      | p :: ps =>
        if value ≤ p.high then ps.reverse ++ ⟨p.low, n.high⟩ :: rest
        else before.reverse ++ ⟨value, n.high⟩ :: rest
    else if value = inc64 n.high then
      match rest with
      | [] => before.reverse ++ [⟨n.low, value⟩]
      | q :: qs =>
        if q.low ≤ value then before.reverse ++ ⟨n.low, q.high⟩ :: qs
        else before.reverse ++ ⟨n.low, value⟩ :: q :: qs
    else if value < n.low then before.reverse ++ ⟨value, value⟩ :: n :: rest
    else appendScan value (n :: before) rest

def idsetAppendInternal (pset : Idset) (replid value : ℕ) : Bool × Idset :=
  if pset.bSerialize = false then (false, pset)
  else (true, { pset with replList := updateRepl replid (appendScan value []) pset.replList })

def idsetAppend (pset : Idset) (eid : ℕ) : Bool × Idset :=
  idsetAppendInternal pset (ropUtilGetReplid eid) (ropUtilGetGcValue eid)

/-- The loop of `idset_append_range` once `prange_node1` is set, here `node`; `passed` are the
nodes between it and the current one. After a removal the loop steps over one node unseen. -/
def absorbScan (high : ℕ) (node : RangeNode) : List RangeNode → List RangeNode → List RangeNode
  | passed, [] => node :: passed.reverse
  | passed, n :: rest =>
    if high = n.low then ⟨node.low, n.high⟩ :: (passed.reverse ++ rest)
    else if high < n.low then node :: (passed.reverse ++ n :: rest)
    else
      match rest with
      | [] => node :: passed.reverse
      | m :: rest => absorbScan high node (m :: passed) rest

/-- The loop of `idset_append_range` while `prange_node1` is `NULL`. -/
def appendRangeScan (low high : ℕ) : List RangeNode → List RangeNode → List RangeNode
  | before, [] => before.reverse ++ [⟨low, high⟩]
  | before, n :: rest =>
    if low = n.high then before.reverse ++ absorbScan high ⟨n.low, high⟩ [] rest
    else if n.high < low ∧ ∀ m ∈ rest.head?, high ≤ m.low then
      before.reverse ++ n :: absorbScan high ⟨low, high⟩ [] rest
    else appendRangeScan low high (n :: before) rest

def idsetAppendRange (pset : Idset) (replid low high : ℕ) : Bool × Idset :=
  if pset.bSerialize = false then (false, pset)
  else if high < low then (false, pset)
  else (true, { pset with replList := updateRepl replid (appendRangeScan low high []) pset.replList })

/-- The difference of two `uint64_t` values returned as an `int`. -/
def idsetQsortCmp (a b : ℕ) : ℤ := Int.bmod ((a : ℤ) - b) (2 ^ 32)

/-- The loop of `idset_batch_append`; the ranges made so far, the tail first. -/
def batchScan : List RangeNode → List ℕ → List RangeNode
  | ranges, [] => ranges.reverse
  | [], v :: vs => batchScan [⟨v, v⟩] vs
  | p :: ps, v :: vs =>
    if inc64 p.high = v then batchScan (⟨p.low, v⟩ :: ps) vs else batchScan (⟨v, v⟩ :: p :: ps) vs

def idsetBatchAppend (pset : Idset) (replid : ℕ) (pvalues : List ℕ) : Bool × Idset :=
  if pset.bSerialize = false then (false, pset)
  else if pvalues = [] then (false, pset)
  else
    let sorted := pvalues.mergeSort fun a b => idsetQsortCmp a b ≤ 0
    if pset.replList.any fun n => n.replid = replid then (false, pset)
    else (true, { pset with replList := pset.replList ++ [⟨replid, batchScan [] sorted⟩] })

/-- The loop of `idset_remove`. A range split in two leaves its upper half first. -/
def removeScan (value : ℕ) : List RangeNode → List RangeNode
  | [] => []
  | n :: rest =>
    if value = n.low ∧ value = n.high then rest
    else if value = n.low then ⟨inc64 n.low, n.high⟩ :: rest
    else if value = n.high then ⟨n.low, dec64 n.high⟩ :: rest
    else if n.low < value ∧ value < n.high then
      ⟨inc64 value, n.high⟩ :: ⟨n.low, dec64 value⟩ :: rest
    else n :: removeScan value rest

def removeRepl (replid value : ℕ) : List ReplidNode → List ReplidNode
  | [] => []
  | n :: ns =>
    if n.replid = replid then ⟨n.replid, removeScan value n.rangeList⟩ :: ns
    else n :: removeRepl replid value ns

def idsetRemove (pset : Idset) (eid : ℕ) : Idset :=
  if pset.bSerialize = false then pset
  else { pset with
    replList := removeRepl (ropUtilGetReplid eid) (ropUtilGetGcValue eid) pset.replList }

/-- The ranges of a set in the order the two loops of `idset_concatenate` visit them. -/
def concatCalls (psetSrc : Idset) : List (ℕ × RangeNode) :=
  psetSrc.replList.flatMap fun n => n.rangeList.map fun r => (n.replid, r)

/-- What `idset_concatenate` does with one range. -/
def concatOne (pset : Idset) (call : ℕ × RangeNode) : Bool × Idset :=
  if call.2.high = call.2.low then idsetAppendInternal pset call.1 call.2.low
  else idsetAppendRange pset call.1 call.2.low call.2.high

def concatLoop : Idset → List (ℕ × RangeNode) → Bool × Idset
  | pset, [] => (true, pset)
  | pset, c :: cs =>
    match concatOne pset c with
    | (false, pset) => (false, pset)
    | (true, pset) => concatLoop pset cs

def idsetConcatenate (psetDst psetSrc : Idset) : Bool × Idset :=
  if psetDst.bSerialize = false ∨ psetSrc.bSerialize = false then (false, psetDst)
  else concatLoop psetDst (concatCalls psetSrc)

def idsetHint (pset : Idset) (eid : ℕ) : Bool :=
  if pset.bSerialize = false ∧ pset.replType = .guid then false
  else
    (rangeListOf pset.replList (ropUtilGetReplid eid)).any fun r =>
      r.low ≤ ropUtilGetGcValue eid ∧ ropUtilGetGcValue eid ≤ r.high

end SteepSystem.Idsets.Model
