import SteepSystem.Lib.Bytes

/-!
The primitives of `LIBRARY/rpc_lib/ndr.c`. Offsets and sizes are numbers of 32 bits. A push
appends to the bytes written so far, whose number is the offset; an access beyond the end of a
buffer is the error `undefined`.
-/

namespace SteepSystem.Ndr

open SteepSystem.Lib.Bytes

structure Flags where
  bigEndian : Bool := false
  noAlign : Bool := false
  remaining : Bool := false
  align2 : Bool := false
  align4 : Bool := false
  align8 : Bool := false
  padCheck : Bool := false
  ndr64 : Bool := false
  deriving DecidableEq

inductive Err
  | bufsize
  | alloc
  | ndr64
  | padding
  | undefined
  deriving DecidableEq

structure NdrPush where
  flags : Flags
  data : List UInt8
  allocSize : ℕ

/-- `malloc`: whether an allocation at this offset succeeds. -/
structure NdrPull where
  flags : Flags
  data : List UInt8
  offset : ℕ
  malloc : ℕ → Bool

abbrev Push := StateT NdrPush (Except Err) Unit

abbrev Pull (α : Type) := StateT NdrPull (Except Err) α

abbrev Bytes (n : ℕ) := {bytes : List UInt8 // bytes.length = n}

/-! ### Sizes -/

/-- Rounded up to a multiple of `size`, which is a power of two. -/
def roundUp (offset size : ℕ) : ℕ := (offset + (size - 1)) / size * size

/-- The alignment that a size stands for. -/
def Flags.alignment (flags : Flags) (size : ℕ) : ℕ :=
  if size = 5 then if flags.ndr64 then 8 else 4
  else if size = 3 then if flags.ndr64 then 4 else 2
  else size

def ndrAlignSize (offset n : ℕ) : ℕ := if offset % n = 0 then 0 else n - offset % n

/-- An integer of `n` bytes in the order of the flags. -/
def Flags.bytes (flags : Flags) (n v : ℕ) : List UInt8 :=
  if flags.bigEndian then be n v else le n v

def Flags.value (flags : Flags) (bytes : List UInt8) : ℕ :=
  if flags.bigEndian then ofBE bytes else ofLE bytes

/-! ### Push -/

/-- `ndr_push_check_overflow` and the copy behind it. -/
def pushBytes (pdata : List UInt8) : Push := fun s =>
  if s.allocSize < (pdata.length + s.data.length) % 2 ^ 32 then .error .bufsize
  else if s.allocSize < s.data.length + pdata.length then .error .undefined
  else .ok ((), { s with data := s.data ++ pdata })

def pushUint8 (v : UInt8) : Push := pushBytes [v]

def pushInt8 (v : Int8) : Push := pushUint8 v.toUInt8

def pushPad : ℕ → Push
  | 0 => pure ()
  | pad + 1 => do
    pushUint8 0
    pushPad pad

def pushAlign (size : ℕ) : Push := do
  let s ← get
  let size := s.flags.alignment size
  if s.flags.noAlign then pure ()
  else pushPad ((roundUp s.data.length size - s.data.length) % 2 ^ 32)

def pushUnionAlign (size : ℕ) : Push := do
  let s ← get
  if s.flags.ndr64 then pushAlign size else pure ()

def pushTrailerAlign (size : ℕ) : Push := do
  let s ← get
  if s.flags.ndr64 then pushAlign size else pure ()

/-- The number as `NDR_SSVAL` and `NDR_SIVAL` store it. -/
def pushFixed (n v : ℕ) : Push := do
  let s ← get
  pushBytes (s.flags.bytes n v)

def pushUint16 (v : UInt16) : Push := do
  pushAlign 2
  pushFixed 2 v.toNat

def pushInt16 (v : Int16) : Push := pushUint16 v.toUInt16

def pushUint32 (v : UInt32) : Push := do
  pushAlign 4
  pushFixed 4 v.toNat

def pushInt32 (v : Int32) : Push := pushUint32 v.toUInt32

/-- The two halves, the high one first if the order is big endian. -/
def Flags.halves (flags : Flags) (v : ℕ) : List UInt8 :=
  if flags.bigEndian then flags.bytes 4 (v / 2 ^ 32) ++ flags.bytes 4 (v % 2 ^ 32)
  else flags.bytes 4 (v % 2 ^ 32) ++ flags.bytes 4 (v / 2 ^ 32)

def pushUint64 (v : UInt64) : Push := do
  pushAlign 8
  let s ← get
  pushBytes (s.flags.halves v.toNat)

def pushInt64 (v : Int64) : Push := pushUint64 v.toUInt64

def pushLong (v : Int32) : Push := do
  let s ← get
  if s.flags.ndr64 then pushInt64 v.toInt64 else pushInt32 v

def pushUlong (v : UInt32) : Push := do
  let s ← get
  if s.flags.ndr64 then pushUint64 v.toUInt64 else pushUint32 v

def pushArrayUint8 (data : List UInt8) : Push := pushBytes data

/-- The flags for padding are looked at in this order. -/
def pushDataBlob (blob : List UInt8) : Push := do
  let s ← get
  if s.flags.remaining then pushBytes blob
  else if s.flags.align2 then
    pushBytes (List.replicate (ndrAlignSize s.data.length 2) 0)
  else if s.flags.align4 then
    pushBytes (List.replicate (ndrAlignSize s.data.length 4) 0)
  else if s.flags.align8 then
    pushBytes (List.replicate (ndrAlignSize s.data.length 8) 0)
  else do
    pushUint32 (UInt32.ofNat blob.length)
    pushBytes blob

def pushString (var : List UInt8) : Push := pushBytes var

structure Guid where
  timeLow : UInt32
  timeMid : UInt16
  timeHiAndVersion : UInt16
  clockSeq : Bytes 2
  node : Bytes 6
  deriving DecidableEq

structure SyntaxId where
  uuid : Guid
  version : UInt32
  deriving DecidableEq

structure ContextHandle where
  handleType : UInt32
  guid : Guid
  deriving DecidableEq

def pushGuid (r : Guid) : Push := do
  pushAlign 4
  pushUint32 r.timeLow
  pushUint16 r.timeMid
  pushUint16 r.timeHiAndVersion
  pushArrayUint8 r.clockSeq.1
  pushArrayUint8 r.node.1
  pushTrailerAlign 4

def pushSyntaxId (r : SyntaxId) : Push := do
  pushAlign 4
  pushGuid r.uuid
  pushUint32 r.version
  pushTrailerAlign 4

def pushContextHandle (r : ContextHandle) : Push := do
  pushAlign 4
  pushUint32 r.handleType
  pushGuid r.guid
  pushTrailerAlign 4

/-! ### Pull -/

/-- The check of the size, in 32 bits, and the bytes at the offset. -/
def pullBytes (n : ℕ) : Pull (Bytes n) := fun s =>
  if s.data.length < n ∨ s.data.length < (s.offset + n) % 2 ^ 32 then .error .bufsize
  else if h : n ≤ (s.data.drop s.offset).length then
    .ok (⟨(s.data.drop s.offset).take n, List.length_take_of_le h⟩,
      { s with offset := s.offset + n })
  else .error .undefined

/-- `ndr_pull_check_padding`, whose index is an `int`. -/
def checkPadding (s : NdrPull) (n : ℕ) : Except Err Unit :=
  let pad := (s.data.drop s.offset).take (roundUp s.offset n - s.offset)
  if 2 ^ 31 ≤ s.offset then .ok ()
  else if pad.any (· != 0) then .error .padding
  else if s.data.length < roundUp s.offset n then .error .undefined
  else .ok ()

def pullAlign (size : ℕ) : Pull Unit := fun s => do
  let size := s.flags.alignment size
  if s.flags.noAlign then
    if s.data.length < s.offset then .error .bufsize else .ok ((), s)
  else
    if s.flags.padCheck then checkPadding s size
    let offset := roundUp s.offset size % 2 ^ 32
    if s.data.length < offset then .error .bufsize else .ok ((), { s with offset })

def pullUnionAlign (size : ℕ) : Pull Unit := do
  let s ← get
  if s.flags.ndr64 then pullAlign size else pure ()

def pullTrailerAlign (size : ℕ) : Pull Unit := do
  let s ← get
  if s.flags.ndr64 then pullAlign size else pure ()

def pullUint8 : Pull UInt8 := do
  let b ← pullBytes 1
  pure (UInt8.ofNat (ofLE b.1))

def pullInt8 : Pull Int8 := do
  let v ← pullUint8
  pure v.toInt8

/-- The number as `NDR_SVAL` and `NDR_IVAL` take it. -/
def pullFixed (n : ℕ) : Pull ℕ := do
  let b ← pullBytes n
  let s ← get
  pure (s.flags.value b.1)

def pullUint16 : Pull UInt16 := do
  pullAlign 2
  let v ← pullFixed 2
  pure (UInt16.ofNat v)

def pullInt16 : Pull Int16 := do
  let v ← pullUint16
  pure v.toInt16

def pullUint32 : Pull UInt32 := do
  pullAlign 4
  let v ← pullFixed 4
  pure (UInt32.ofNat v)

def pullInt32 : Pull Int32 := do
  let v ← pullUint32
  pure v.toInt32

def Flags.ofHalves (flags : Flags) (bytes : List UInt8) : ℕ :=
  if flags.bigEndian then flags.value (bytes.take 4) * 2 ^ 32 + flags.value (bytes.drop 4)
  else flags.value (bytes.take 4) + flags.value (bytes.drop 4) * 2 ^ 32

def pullUint64 : Pull UInt64 := do
  pullAlign 8
  let b ← pullBytes 8
  let s ← get
  pure (UInt64.ofNat (s.flags.ofHalves b.1))

def pullInt64 : Pull Int64 := do
  let v ← pullUint64
  pure v.toInt64

def pullLong : Pull Int32 := do
  let s ← get
  if s.flags.ndr64 then do
    let v64 ← pullInt64
    if v64 = v64.toInt32.toInt64 then pure v64.toInt32 else throw .ndr64
  else pullInt32

def pullUlong : Pull UInt32 := do
  let s ← get
  if s.flags.ndr64 then do
    let v64 ← pullUint64
    if v64 = v64.toUInt32.toUInt64 then pure v64.toUInt32 else throw .ndr64
  else pullUint32

def pullArrayUint8 (n : ℕ) : Pull (Bytes n) := pullBytes n

/-- What `ndr_pull_data_blob` copies, once it knows how long it is. -/
def pullBlob (length : ℕ) : Pull (List UInt8) := fun s => do
  if s.data.length < length ∨ s.data.length < (s.offset + length) % 2 ^ 32 then .error .bufsize
  else if s.malloc s.offset then
    let (b, s) ← pullBytes length s
    .ok (b.1, s)
  else .error .alloc

def pullDataBlob : Pull (List UInt8) := do
  let s ← get
  let left := s.data.length - s.offset
  if s.flags.remaining then pullBlob left
  else if s.flags.align2 then pullBlob (min (ndrAlignSize s.offset 2) left)
  else if s.flags.align4 then pullBlob (min (ndrAlignSize s.offset 4) left)
  else if s.flags.align8 then pullBlob (min (ndrAlignSize s.offset 8) left)
  else do
    let length ← pullUint32
    pullBlob length.toNat

/-- The string is followed by a terminator in the buffer of the caller. -/
def pullString (inbytes : ℕ) : Pull (Bytes inbytes) := fun s =>
  if h : inbytes = 0 then .ok (⟨[], h.symm⟩, s)
  else pullBytes inbytes s

def pullGuid : Pull Guid := do
  pullAlign 4
  let timeLow ← pullUint32
  let timeMid ← pullUint16
  let timeHiAndVersion ← pullUint16
  let clockSeq ← pullArrayUint8 2
  let node ← pullArrayUint8 6
  pullTrailerAlign 4
  pure { timeLow, timeMid, timeHiAndVersion, clockSeq, node }

def pullSyntaxId : Pull SyntaxId := do
  pullAlign 4
  let uuid ← pullGuid
  let version ← pullUint32
  pullTrailerAlign 4
  pure { uuid, version }

def pullContextHandle : Pull ContextHandle := do
  pullAlign 4
  let handleType ← pullUint32
  let guid ← pullGuid
  pullTrailerAlign 4
  pure { handleType, guid }

/-! ### The Types -/

/-- The sizes that an alignment can be asked for. -/
inductive Alignment
  | one
  | two
  | three
  | four
  | five
  | eight
  deriving DecidableEq

def Alignment.size : Alignment → ℕ
  | one => 1
  | two => 2
  | three => 3
  | four => 4
  | five => 5
  | eight => 8

inductive Ty
  | int8
  | uint8
  | int16
  | uint16
  | int32
  | uint32
  | int64
  | uint64
  | long
  | ulong
  | guid
  | syntaxId
  | contextHandle
  | arrayUint8 (n : ℕ)
  | string (n : ℕ)
  | dataBlob
  | align (a : Alignment)
  | unionAlign (a : Alignment)
  | trailerAlign (a : Alignment)

def Ty.Val : Ty → Type
  | int8 => Int8
  | uint8 => UInt8
  | int16 => Int16
  | uint16 => UInt16
  | int32 | long => Int32
  | uint32 | ulong => UInt32
  | int64 => Int64
  | uint64 => UInt64
  | guid => Guid
  | syntaxId => SyntaxId
  | contextHandle => ContextHandle
  | arrayUint8 n | string n => Bytes n
  | dataBlob => List UInt8
  | align _ | unionAlign _ | trailerAlign _ => Unit

def Ty.push : (t : Ty) → t.Val → Push
  | int8, v => pushInt8 v
  | uint8, v => pushUint8 v
  | int16, v => pushInt16 v
  | uint16, v => pushUint16 v
  | int32, v => pushInt32 v
  | uint32, v => pushUint32 v
  | int64, v => pushInt64 v
  | uint64, v => pushUint64 v
  | long, v => pushLong v
  | ulong, v => pushUlong v
  | guid, v => pushGuid v
  | syntaxId, v => pushSyntaxId v
  | contextHandle, v => pushContextHandle v
  | arrayUint8 _, v => pushArrayUint8 v.1
  | string _, v => pushString v.1
  | dataBlob, v => pushDataBlob v
  | align a, _ => pushAlign a.size
  | unionAlign a, _ => pushUnionAlign a.size
  | trailerAlign a, _ => pushTrailerAlign a.size

def Ty.pull : (t : Ty) → Pull t.Val
  | int8 => pullInt8
  | uint8 => pullUint8
  | int16 => pullInt16
  | uint16 => pullUint16
  | int32 => pullInt32
  | uint32 => pullUint32
  | int64 => pullInt64
  | uint64 => pullUint64
  | long => pullLong
  | ulong => pullUlong
  | guid => pullGuid
  | syntaxId => pullSyntaxId
  | contextHandle => pullContextHandle
  | arrayUint8 n => pullArrayUint8 n
  | string n => pullString n
  | dataBlob => pullDataBlob
  | align a => pullAlign a.size
  | unionAlign a => pullUnionAlign a.size
  | trailerAlign a => pullTrailerAlign a.size

/-- A sequence of values of NDR types. -/
abbrev Values := List (Σ t : Ty, t.Val)

def pushAll : Values → Push
  | [] => pure ()
  | v :: values => do
    v.1.push v.2
    pushAll values

/-- The values of a sequence of types. -/
def pullAll : List Ty → Pull Values
  | [] => pure []
  | t :: types => do
    let v ← t.pull
    let values ← pullAll types
    pure (⟨t, v⟩ :: values)

end SteepSystem.Ndr
