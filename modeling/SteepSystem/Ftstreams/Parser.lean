import SteepSystem.ExtBuffer.Structures
import SteepSystem.Lib.Feeds

/-!
The FastTransfer stream as a client uploads it: `ftstream_parser.c`, which keeps the buffers that
come in a file until their elements are whole. Memory is granted and the file can be read and
written; what reads outside of its buffer fails.
-/

namespace SteepSystem.Ftstreams

open SteepSystem.ExtBuffer SteepSystem.Lib.Bytes SteepSystem.Lib.Feeds SteepSystem.Lib.Feeds.Reader

/-! ### What a stream is made of -/

/-- `STARTTOPFLD` to `FXERRORINFO`. -/
def markers : List UInt32 :=
  [0x40090003, 0x400A0003, 0x400B0003, 0x400C0003, 0x400D0003, 0x40100003, 0x40010003, 0x40020003,
    0x40030003, 0x40040003, 0x40000003, 0x400E0003, 0x40120003, 0x407D0003, 0x40130003, 0x40140003,
    0x402F0003, 0x403A0003, 0x403B0003, 0x4074000B, 0x4075000B, 0x40150003, 0x407B0102, 0x40180003]

def metaTagIdsetgiven : UInt32 := 0x40170003

inductive Element
  | marker (marker : UInt32)
  | propval (ppropval : TaggedPropval)

/-- What is outside of the streams: the conversions of strings by `iconv`, and the named properties
of the store. -/
structure Setup where
  /-- `utf8_to_utf16le`, with the terminator. -/
  utf8ToUtf16le : CString → Option Bytes
  /-- The string in the buffer that `utf16le_to_utf8` fills. -/
  utf16leToUtf8 : Bytes → Option CString
  /-- `common_util_mb_to_utf8`, where it returns a length. -/
  mbToUtf8 : UInt16 → CString → Option CString
  /-- What `common_util_convert_string` leaves, and the empty string where it fails. -/
  convertString : Bool → CString → CString
  namedPropname : UInt16 → Option PropertyName
  namedPropid : PropertyName → Option UInt16
  maxMailLength : ℕ

def proptagOf (propid proptype : UInt16) : UInt32 :=
  propid.toUInt32 <<< 16 ||| proptype.toUInt32

def propidOf (proptag : UInt32) : UInt16 := (proptag >>> 16).toUInt16

def proptypeOf (proptag : UInt32) : UInt16 := proptag.toUInt16

/-- The label that a type selects. -/
def label (proptype : UInt16) : Option PropvalType :=
  PropvalType.all.find? (·.code = proptype.toNat)

/-! ### Reading an element -/

abbrev Read := Reader UInt8

def readUint8 : Read UInt8 := do
  let b ← take 1
  pure (.ofNat (ofLE b))

def readUint16 : Read UInt16 := do
  let b ← take 2
  pure (.ofNat (ofLE b))

def readUint32 : Read UInt32 := do
  let b ← take 4
  pure (.ofNat (ofLE b))

def readUint64 : Read UInt64 := do
  let b ← take 8
  pure (.ofNat (ofLE b))

/-- Nulls behind the string, where it does not have them. -/
def terminated (pbuff : Bytes) : Bytes :=
  if pbuff.getD (pbuff.length - 2) 0 ≠ 0 ∧ pbuff.getD (pbuff.length - 1) 0 ≠ 0 then pbuff ++ [0, 0]
  else pbuff

def readGuid : Read Guid := do
  let timeLow ← readUint32
  let timeMid ← readUint16
  let timeHiAndVersion ← readUint16
  let clockSeq ← take 2
  let node ← take 6
  pure { timeLow, timeMid, timeHiAndVersion, clockSeq := .of 2 clockSeq, node := .of 6 node }

/-- What is read for a binary does not end the function, and then the numbers are read, too. -/
def readSvreid : Read Svreid := do
  let len ← readUint32
  needing len.toNat do
    if len ≠ 21 then fail
    else do
      let ours ← readUint8
      if ours = 0 then do
        let _ ← take 20
        let folderId ← readUint64
        let messageId ← readUint64
        let instance_ ← readUint32
        pure (.ours folderId messageId instance_)
      else do
        let folderId ← readUint64
        let messageId ← readUint64
        let instance_ ← readUint32
        pure (.ours folderId messageId instance_)

/-- The units up to the null; `n` of them have room in the buffer. -/
def nakedLoop : ℕ → Bytes → Read Bytes
  | 0, _ => fail
  | n + 1, buff => do
    let unit ← take 2
    if unit = [0, 0] then pure (buff ++ unit) else nakedLoop n (buff ++ unit)

/-- The values of a multi-value that are strings or binaries, behind `used` bytes of it. Behind the
last one there has to be something, too. -/
def readMany {α : Type} (r : Read α) : ℕ → ℕ → Read (List α)
  | 0, _ => pure []
  | n + 1, used => fun p =>
    match r p with
    | .error .wait => if used + 4 > 0x10000 then .error .fail else .error .wait
    | .error .fail => .error .fail
    | .ok (_, []) =>
      if used + p.length > 0x10000 then .error .fail else .error .wait
    | .ok (a, b :: rest) =>
      (do
        let as ← readMany r n (used + (p.length - (b :: rest).length))
        pure (a :: as) : Read (List α)) (b :: rest)

/-- The count, and the values of a size that is known. -/
def readArray {α : Type} (size : ℕ) (r : Read α) : Read (List α) := do
  let count ← readUint32
  if count.toNat * size > 0x10000 then fail
  else needing (count.toNat * size) (times r count.toNat)

/-- The size is computed in 32 bits. -/
def readGuidArray : Read (List Guid) := do
  let count ← readUint32
  if 16 * count > 0x10000 then fail
  else needing (16 * count).toNat (times readGuid count.toNat)

variable (x : Setup)

def readWstring : Read CString := do
  let len ← readUint32
  if x.maxMailLength ≤ len.toNat then fail
  else needing len.toNat do
    if len < 2 then fail
    else do
      let pbuff ← take len.toNat
      match x.utf16leToUtf8 (terminated pbuff) with
      | some s => pure s
      | none => fail

def readString : Read CString := do
  let len ← readUint32
  if x.maxMailLength ≤ len.toNat then fail
  else needing len.toNat do
    if len = 0 then fail
    else do
      let pbuff ← take len.toNat
      pure (CString.of pbuff)

def readNakedWstring : Read CString := do
  let buff ← nakedLoop 512 []
  match x.utf16leToUtf8 buff with
  | some s => pure s
  | none => fail

def readBinary : Read Bytes := do
  let cb ← readUint32
  if x.maxMailLength ≤ cb.toNat then fail
  else needing cb.toNat (take cb.toNat)

/-- A multi-value of strings or binaries; `used` bytes of the element are in front of it. -/
def readMultiple {α : Type} (r : Read α) (used : ℕ) : Read (List α) := do
  let count ← readUint32
  needing 1 (readMany r count.toNat (used + 4))

def readPropertyName : Read PropertyName := do
  let guid ← readGuid
  let kind ← readUint8
  if kind = 0 then do
    let plid ← readUint32
    pure { kind, guid, plid := some plid, pname := none }
  else if kind = 1 then do
    let pname ← readNakedWstring x
    pure { kind, guid, plid := none, pname := some pname }
  else fail

/-- The value of a property of that type, behind `used` bytes of its element. -/
def readPropvalue (proptype : UInt16) (used : ℕ) : Read PropVal :=
  match label proptype with
  | some .short => return .short (← readUint16)
  | some .error | some .long => return .long (← readUint32)
  | some .float => return .float (← readUint32)
  | some .double | some .floatingtime => return .double (← readUint64)
  | some .byte => return .byte (← readUint16).toUInt8
  | some .currency | some .longlong | some .filetime => return .longlong (← readUint64)
  | some .string => return .string (← readString x)
  | some .wstring => return .string (← readWstring x)
  | some .guid => return .guid (← readGuid)
  | some .svreid => return .svreid (← readSvreid)
  | some .object | some .binary => return .binary (← readBinary x)
  | some .shortArray => return .shortArray (← readArray 2 readUint16)
  | some .longArray => return .longArray (← readArray 4 readUint32)
  | some .longlongArray => return .longlongArray (← readArray 8 readUint64)
  | some .stringArray => return .stringArray (← readMultiple (readString x) used)
  | some .wstringArray => return .stringArray (← readMultiple (readWstring x) used)
  | some .guidArray => return .guidArray (← readGuidArray)
  | some .binaryArray => return .binaryArray (← readMultiple (readBinary x) used)
  | _ => fail

/-- The property behind its definition; one in a code page keeps it as its type. -/
def readPropval (propid proptype : UInt16) (used : ℕ) : Read TaggedPropval :=
  if proptype &&& 0x8000 ≠ 0 then
    if proptype &&& 0x7FFF = 1200 then
      return .mk (proptagOf propid 0x001F) (.string (← readWstring x))
    else return .mk (proptagOf propid proptype) (.string (← readString x))
  else return .mk (proptagOf propid proptype) (← readPropvalue x proptype used)

/-- The identifier of the property in this store, and what its definition takes of the stream. -/
def readPropid (propid : UInt16) : Read (UInt16 × ℕ) :=
  if propid &&& 0x8000 ≠ 0 then do
    let (ppropname, size) ← measured (readPropertyName x)
    match x.namedPropid ppropname with
    | some propid => pure (propid, 4 + size)
    | none => fail
  else pure (propid, 4)

/-- What is behind the first four bytes of an element. -/
def readBehind (atomElement : UInt32) : Read Element :=
  if atomElement ∈ markers then return .marker atomElement
  else do
    let proptype := if atomElement = metaTagIdsetgiven then 0x0102 else proptypeOf atomElement
    let (propid, used) ← readPropid x (propidOf atomElement)
    needing 1 do
      return .propval (← readPropval x propid proptype used)

/-- `ftstream_parser_read_element` -/
def readElement : Read Element := needing 1 do
  let atomElement ← readUint32
  readBehind x atomElement

/-! ### The buffers -/

/-- `st_size` is the length of the file. -/
structure Parser where
  file : Bytes
  offset : ℕ
  deriving DecidableEq

namespace Parser

def create : Parser := ⟨[], 0⟩

def writeBuffer (pstream : Parser) (ptransferData : Bytes) : Parser :=
  { pstream with file := pstream.file ++ ptransferData }

/-- `ftstream_parser_truncate_fd`: what has not been read goes to the front, as far as the buffer
holds it. -/
def truncateFd (pstream : Parser) : Parser :=
  if pstream.offset = 0 then pstream
  else if pstream.file.length = pstream.offset then ⟨[], 0⟩
  else ⟨(pstream.file.drop pstream.offset).take 0x10000, 0⟩

/-- A string in a code page is made one in UTF-8, where that can be done. -/
def recorded : Element → Element
  | .marker marker => .marker marker
  | .propval (.mk proptag (.string pstr)) =>
    if proptypeOf proptag &&& 0x8000 ≠ 0 then
      match x.mbToUtf8 (proptypeOf proptag &&& 0x7FFF) pstr with
      | some s => .propval (.mk (proptagOf (propidOf proptag) 0x001F) (.string s))
      | none => .propval (.mk (proptagOf (propidOf proptag) 0x001E) (.string pstr))
    else .propval (.mk proptag (.string pstr))
  | .propval p => .propval p

variable {σ : Type} (record : σ → Element → Option σ)

/-- The loop of `ftstream_parser_process`; `record` is what takes the markers and properties, or
refuses them. -/
def processLoop : ℕ → Parser → σ → Option (Parser × σ)
  | 0, _, _ => none
  | n + 1, pstream, ctx =>
    match readElement x (pstream.file.drop pstream.offset) with
    | .ok (e, rest) =>
      (record ctx (recorded x e)).bind
        (processLoop n { pstream with offset := pstream.file.length - rest.length })
    | .error .wait => some (pstream.truncateFd, ctx)
    | .error .fail => none

def process (pstream : Parser) (ctx : σ) : Option (Parser × σ) :=
  processLoop x record (pstream.file.length + 1) { pstream with offset := 0 } ctx

/-- The buffers of an upload. -/
def upload : List Bytes → Parser × σ → Option (Parser × σ)
  | [], s => some s
  | buffer :: buffers, (pstream, ctx) =>
    ((pstream.writeBuffer buffer).process x record ctx).bind (upload buffers)

end Parser

/-! ### Strings of ASCII characters -/

/-- Each second byte is null. -/
def narrow : Bytes → Option Bytes
  | [] => some []
  | [_] => none
  | c :: d :: w => if d = 0 then (narrow w).map (c :: ·) else none

def asciiName : PropertyName where
  kind := 1
  guid := ⟨0, 0, 0, .of 2 [], .of 6 []⟩
  plid := none
  pname := some (.of [0x61])

/-- A store with one named property. -/
def ascii : Setup where
  utf8ToUtf16le s :=
    if s.bytes.all (· < 0x80) then some (s.bytes.flatMap (fun c => [c, 0]) ++ [0, 0]) else none
  utf16leToUtf8 w := (narrow w).map CString.of
  mbToUtf8 _ s := some s
  convertString _ s := s
  namedPropname propid := if propid = 0x8001 then some asciiName else none
  namedPropid _ := some 0x8001
  maxMailLength := 0x10000

end SteepSystem.Ftstreams
