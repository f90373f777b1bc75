import SteepSystem.Lib.Bytes

/-!
Predecessor change lists (`LIBRARY/mapi_lib/pcl.c`): XIDs in the order of their GUIDs, one for
each, with the calls that add to such a list, read one from a binary and compare two.

A `SIZED_XID` is modelled by its GUID and the `size - 16` bytes of `local_id` that are in use.
-/

namespace SteepSystem.Pcls.Model

open SteepSystem.Lib.Bytes

/-- The 16 bytes of a `GUID` as they stand in memory and in a binary. -/
@[ext] structure Guid where
  bytes : List UInt8
  length_eq : bytes.length = 16
  deriving DecidableEq

structure SizedXid where
  guid : Guid
  localId : List UInt8
  deriving DecidableEq

def SizedXid.size (pxid : SizedXid) : ℕ := 16 + pxid.localId.length

/-- A list of `XID_NODE`s. -/
abbrev PclList := List SizedXid

/-- The difference of the first bytes that differ. -/
def memcmp : List UInt8 → List UInt8 → ℤ
  | a :: as, b :: bs => if a = b then memcmp as bs else (a.toNat : ℤ) - b.toNat
  | _, _ => 0

def pclConvertLocalId (pxid : SizedXid) : ℕ :=
  (List.range (pxid.size - 16)).foldl
    (fun retVal i => retVal ||| (pxid.localId.getD i 0).toNat <<< ((pxid.size - 16 - 1 - i) * 8)) 0

def pclAppend : PclList → SizedXid → Bool × PclList
  | [], pxid => (true, [pxid])
  | x :: ppcl, pxid =>
    let cmpRet := memcmp x.guid.bytes pxid.guid.bytes
    if cmpRet < 0 then
      let (ok, ppcl) := pclAppend ppcl pxid
      (ok, x :: ppcl)
    else if cmpRet = 0 then
      if pxid.size ≠ x.size then (false, x :: ppcl)
      else if pclConvertLocalId pxid > pclConvertLocalId x then
        (true, ⟨x.guid, pxid.localId⟩ :: ppcl)
      else (true, x :: ppcl)
    else (true, pxid :: x :: ppcl)

def pclMerge (ppcl1 : PclList) : PclList → Bool × PclList
  | [] => (true, ppcl1)
  | x :: ppcl2 =>
    match pclAppend ppcl1 x with
    | (false, ppcl1) => (false, ppcl1)
    | (true, ppcl1) => pclMerge ppcl1 ppcl2

/-- The XID at an offset of 16 bits; the offset after its size byte is one of 16 bits too. -/
def pclPullSizedXid (pbin : List UInt8) (offset : ℕ) : Option SizedXid :=
  if pbin.length ≤ offset then none
  else
    let size := (pbin.getD offset 0).toNat
    if size < 17 ∨ 24 < size ∨ offset + 1 + size > pbin.length then none
    else
      let xid := pbin.drop ((offset + 1) % 65536)
      if h : (xid.take 16).length = 16 then
        some ⟨⟨xid.take 16, h⟩, (xid.drop 16).take (size - 16)⟩
      else none

/-- The loop of `pcl_deserialize`; no result when it has not ended within the fuel. -/
def deserializeLoop (pbin : List UInt8) : ℕ → ℕ → PclList → Option (Bool × PclList)
  | 0, _, _ => none
  | fuel + 1, offset, ppcl =>
    match pclPullSizedXid pbin offset with
    | none => some (false, ppcl)
    | some xid =>
      match pclAppend ppcl xid with
      | (false, ppcl) => some (false, ppcl)
      | (true, ppcl) =>
        let offset := (offset + (xid.size + 1)) % 65536
        if pbin.length = offset then some (true, ppcl) else deserializeLoop pbin fuel offset ppcl

def pclDeserialize (fuel : ℕ) (ppcl : PclList) (pbin : List UInt8) : Option (Bool × PclList) :=
  deserializeLoop pbin fuel 0 ppcl

def pclCheckIncluded : PclList → SizedXid → Bool
  | [], _ => false
  | x :: ppcl, pxid =>
    let cmpRet := memcmp x.guid.bytes pxid.guid.bytes
    if cmpRet < 0 then pclCheckIncluded ppcl pxid
    else if cmpRet > 0 then false
    else if pxid.size ≠ x.size then false
    else if pclConvertLocalId x ≥ pclConvertLocalId pxid then true
    else pclCheckIncluded ppcl pxid

def PCL_CONFLICT : ℕ := 0
def PCL_INCLUDE : ℕ := 1
def PCL_INCLUDED : ℕ := 2

def pclCompare (ppcl1 ppcl2 : PclList) : ℕ :=
  let retVal := PCL_CONFLICT
  let retVal := if ppcl1.all (pclCheckIncluded ppcl2) then retVal ||| PCL_INCLUDED else retVal
  if ppcl2.all (pclCheckIncluded ppcl1) then retVal ||| PCL_INCLUDE else retVal

end SteepSystem.Pcls.Model
