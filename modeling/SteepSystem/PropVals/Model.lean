import SteepSystem.Lib.Bytes
import SteepSystem.Lib.CStrings
import SteepSystem.Lib.Relops
import SteepSystem.Pcls.Spec

/-!
The comparison of property values in `propval.c`, without the floating-point types.
-/

namespace SteepSystem.PropVals

open SteepSystem.Lib SteepSystem.Lib.CStrings
open SteepSystem.Pcls.Model (memcmp)

/-- The characters before the zero. -/
structure Str where
  chars : List UInt8
  not_zero : 0 ∉ chars

structure Guid where
  timeLow : UInt32
  timeMid : UInt16
  timeHiAndVersion : UInt16
  clockSeq0 : UInt8
  clockSeq1 : UInt8
  node : List UInt8
  length_node : node.length = 6

/-- No bytes if there is no pointer. -/
structure Binary where
  pb : Option (List UInt8)

def Binary.bytes (b : Binary) : List UInt8 := b.pb.getD []

def Binary.cb (b : Binary) : ℕ := b.bytes.length

structure Svreid where
  pbin : Option Binary
  folderId : UInt64
  messageId : UInt64
  instanceNum : UInt32

inductive PropType
  | short
  | long
  | error
  | byte
  | currency
  | longlong
  | filetime
  | string
  | wstring
  | guid
  | binary
  | svreid
  | shortArray
  | longArray
  | longlongArray
  | stringArray
  | wstringArray
  | binaryArray

def PropType.Val : PropType → Type
  | .short => UInt16
  | .long | .error => UInt32
  | .byte => UInt8
  | .currency | .longlong | .filetime => UInt64
  | .string | .wstring => Str
  | .guid => Guid
  | .binary => Binary
  | .svreid => Svreid
  | .shortArray => List UInt16
  | .longArray => List UInt32
  | .longlongArray => List UInt64
  | .stringArray | .wstringArray => List Str
  | .binaryArray => List Binary

/-- The zero behind a string is less than any character. -/
def strcasecmp : List UInt8 → List UInt8 → ℤ
  | [], [] => 0
  | [], b :: _ => -((tolower b).toNat : ℤ)
  | a :: _, [] => (tolower a).toNat
  | a :: as, b :: bs =>
    if tolower a = tolower b then strcasecmp as bs else (tolower a).toNat - (tolower b).toNat

def guidCompare (u1 u2 : Guid) : ℤ :=
  if u1.timeLow ≠ u2.timeLow then if u2.timeLow < u1.timeLow then 1 else -1
  else if u1.timeMid ≠ u2.timeMid then if u2.timeMid < u1.timeMid then 1 else -1
  else if u1.timeHiAndVersion ≠ u2.timeHiAndVersion then
    if u2.timeHiAndVersion < u1.timeHiAndVersion then 1 else -1
  else if u1.clockSeq0 ≠ u2.clockSeq0 then if u2.clockSeq0 < u1.clockSeq0 then 1 else -1
  else if u1.clockSeq1 ≠ u2.clockSeq1 then if u2.clockSeq1 < u1.clockSeq1 then 1 else -1
  else memcmp u1.node u2.node

/-- The second test is also made where the first one fails. -/
def compareShort (relop : Relop) (a b : UInt16) : Bool :=
  match relop with
  | .le => a ≤ b || b < a
  | relop => relop.test a.toNat b.toNat

/-- The bytes of both, as many as the shorter one has. -/
def memcmpShorter (a b : Binary) : ℤ :=
  if b.cb < a.cb then memcmp (a.bytes.take b.cb) (b.bytes.take b.cb)
  else memcmp (a.bytes.take a.cb) (b.bytes.take a.cb)

def compareBinary (relop : Relop) (a b : Binary) : Bool :=
  match relop with
  | .lt =>
    if a.cb = 0 ∧ b.cb ≠ 0 then true
    else if a.cb = 0 ∨ b.cb = 0 then false
    else memcmpShorter a b < 0
  | .le =>
    if a.cb = 0 then true
    else if b.cb = 0 then false
    else memcmpShorter a b ≤ 0
  | .gt =>
    if a.cb ≠ 0 ∧ b.cb = 0 then true
    else if a.cb = 0 ∨ b.cb = 0 then false
    else 0 < memcmpShorter a b
  | .ge =>
    if b.cb = 0 then true
    else if a.cb = 0 then false
    else 0 ≤ memcmpShorter a b
  | .eq =>
    if a.cb ≠ b.cb then false
    else if a.pb = none then true
    else memcmp a.bytes b.bytes = 0
  | .ne =>
    if a.cb ≠ b.cb then true
    else if a.pb = none then false
    else memcmp a.bytes b.bytes ≠ 0
  | .memberOfDl => false

def compareSvreid (relop : Relop) (a b : Svreid) : Bool :=
  match relop with
  | .eq =>
    match a.pbin, b.pbin with
    | none, some _ => false
    | some _, none => false
    | some p, some q =>
      if p.cb ≠ q.cb then false
      else if p.cb = 0 then true
      else memcmp p.bytes q.bytes = 0
    | none, none =>
      if a.folderId ≠ b.folderId then false
      else if a.messageId ≠ b.messageId then false
      else if a.instanceNum ≠ b.instanceNum then false
      else true
  | .ne =>
    match a.pbin, b.pbin with
    | none, some _ => true
    | some _, none => true
    | some p, some q =>
      if p.cb ≠ q.cb then true
      else if p.cb = 0 then false
      else memcmp p.bytes q.bytes ≠ 0
    | none, none =>
      -- one number that is equal is enough
      if a.folderId = b.folderId then false
      else if a.messageId = b.messageId then false
      else if a.instanceNum = b.instanceNum then false
      else true
  | _ => false

/-- Arrays are compared for equality only. `differ` goes over two arrays of the same length. -/
def compareArray {α : Type} (differ : List α → List α → Bool) (relop : Relop) (a b : List α) :
    Bool :=
  match relop with
  | .eq => if a.length ≠ b.length then false else !differ a b
  | .ne => if a.length ≠ b.length then true else differ a b
  | _ => false

/-- Numbers of so many bytes, as they lie in memory. -/
def memDiffer {α : Type} (size : ℕ) (toNat : α → ℕ) (a b : List α) : Bool :=
  memcmp (a.flatMap fun v => Bytes.le size (toNat v)) (b.flatMap fun v => Bytes.le size (toNat v)) ≠
    0

/-- The loop over the elements. -/
def anyDiffer {α : Type} (differ : α → α → Bool) : List α → List α → Bool
  | a :: as, b :: bs => if differ a b then true else anyDiffer differ as bs
  | _, _ => false

def strDiffer (a b : Str) : Bool := strcasecmp a.chars b.chars ≠ 0

def binaryDiffer (a b : Binary) : Bool :=
  if a.cb ≠ b.cb then true else memcmp a.bytes b.bytes ≠ 0

def propvalCompareRelop (relop : Relop) : (proptype : PropType) → proptype.Val → proptype.Val → Bool
  | .short, a, b => compareShort relop a b
  | .long, a, b | .error, a, b => relop.test (UInt32.toNat a) (UInt32.toNat b)
  | .byte, a, b => relop.test (UInt8.toNat a) (UInt8.toNat b)
  | .currency, a, b | .longlong, a, b | .filetime, a, b =>
    relop.test (UInt64.toNat a) (UInt64.toNat b)
  | .string, a, b | .wstring, a, b => relop.test (strcasecmp a.chars b.chars) 0
  | .guid, a, b => relop.test (guidCompare a b) 0
  | .binary, a, b => compareBinary relop a b
  | .svreid, a, b => compareSvreid relop a b
  | .shortArray, a, b => compareArray (memDiffer 2 UInt16.toNat) relop a b
  | .longArray, a, b => compareArray (memDiffer 4 UInt32.toNat) relop a b
  | .longlongArray, a, b => compareArray (memDiffer 8 UInt64.toNat) relop a b
  | .stringArray, a, b | .wstringArray, a, b => compareArray (anyDiffer strDiffer) relop a b
  | .binaryArray, a, b => compareArray (anyDiffer binaryDiffer) relop a b

end SteepSystem.PropVals
