import SteepSystem.Ftstreams.Parser

/-!
The FastTransfer stream as the server makes it: `ftstream_producer.c`, which writes properties and
markers to a buffer, and to a file when that is full, notes where the stream may be cut, and hands
it out in pieces. Memory is granted, and the file can be read and written.
-/

namespace SteepSystem.Ftstreams

open SteepSystem.ExtBuffer SteepSystem.Lib.Bytes

/-- `FTSTREAM_PRODUCER_POINT_LENGTH` -/
def pointLength : ℕ := 1024

/-- `FTSTREAM_PRODUCER_BUFFER_LENGTH` -/
def bufferLength : ℕ := 4 * 1024 * 1024

/-- `POINT_TYPE_*` -/
inductive PointType
  | normalBreak | longVar | wstring
  deriving DecidableEq

structure PointNode where
  type : PointType
  offset : ℕ
  deriving DecidableEq

/-- `STRING_OPTION_*` -/
structure StringOption where
  forceUnicode : Bool
  cpid : Bool
  none : Bool
  deriving DecidableEq

structure File where
  content : Bytes
  position : ℕ
  deriving DecidableEq

/-- `buffer_offset` is the length of the buffer. -/
structure Producer where
  fd : Option File
  offset : ℕ
  buffer : Bytes
  readOffset : ℕ
  bpList : List PointNode
  bRead : Bool
  deriving DecidableEq

/-- Numbers of 32 bits. -/
def sub32 (a b : ℕ) : ℕ := (a + 2 ^ 32 - b) % 2 ^ 32

namespace Producer

def create : Producer := ⟨none, 0, [], 0, [], false⟩

def lastSeek (pstream : Producer) : ℕ := pstream.bpList.getLast?.elim 0 PointNode.offset

def addPoint (pstream : Producer) (type : PointType) (offset : ℕ) : Producer :=
  { pstream with bpList := pstream.bpList ++ [⟨type, offset⟩] }

def tryRecodeNbp (pstream : Producer) : Producer :=
  if pointLength ≤ sub32 pstream.offset pstream.lastSeek then
    pstream.addPoint .normalBreak pstream.offset
  else pstream

/-- Whether a point there is behind all others. -/
def isBehind (pstream : Producer) (nbp : ℕ) : Bool :=
  pstream.bpList.getLast?.elim true fun p => p.offset < nbp

def recordNbp (pstream : Producer) (nbp : ℕ) : Producer :=
  if pstream.isBehind nbp then pstream.addPoint .normalBreak nbp else pstream

/-- `ftstream_producer_record_lvp` and `ftstream_producer_record_wsp`. -/
def recordVar (type : PointType) (pstream : Producer) (position length : ℕ) : Producer :=
  let pstream := pstream.recordNbp position
  if pstream.lastSeek < (position + length) % 2 ^ 32 then
    pstream.addPoint type ((position + length) % 2 ^ 32)
  else pstream

def recordLvp : Producer → ℕ → ℕ → Producer := recordVar .longVar

def recordWsp : Producer → ℕ → ℕ → Producer := recordVar .wstring

/-- The buffer goes to the file. -/
def spill (pstream : Producer) : Producer :=
  { pstream with
    fd := some ⟨(pstream.fd.elim [] File.content) ++ pstream.buffer, 0⟩
    buffer := []
    readOffset := 0 }

def writeInternal (pstream : Producer) (pbuff : Bytes) : Producer :=
  let pstream :=
    if bufferLength ≤ pbuff.length ∨ bufferLength - pstream.buffer.length < pbuff.length then
      pstream.spill
    else pstream
  let offset := (pstream.offset + pbuff.length) % 2 ^ 32
  if bufferLength ≤ pbuff.length then
    { pstream with fd := pstream.fd.map fun f => { f with content := f.content ++ pbuff }, offset }
  else { pstream with buffer := pstream.buffer ++ pbuff, offset }

/-- The functions for a number or a GUID. -/
def writeFixed (pstream : Producer) (bytes : Bytes) : Producer :=
  (pstream.writeInternal bytes).tryRecodeNbp

def writeUint16 (pstream : Producer) (v : UInt16) : Producer := pstream.writeFixed (le 2 v.toNat)

def writeUint32 (pstream : Producer) (v : UInt32) : Producer := pstream.writeFixed (le 4 v.toNat)

def writeUint64 (pstream : Producer) (v : UInt64) : Producer := pstream.writeFixed (le 8 v.toNat)

/-- `rop_util_guid_to_binary` -/
def guidToBinary (guid : Guid) : Bytes :=
  le 4 guid.timeLow.toNat ++ le 2 guid.timeMid.toNat ++ le 2 guid.timeHiAndVersion.toNat ++
    guid.clockSeq.1 ++ guid.node.1

def writeGuid (pstream : Producer) (guid : Guid) : Producer :=
  pstream.writeFixed (guidToBinary guid)

/-- The length of a value and the value, inside of which the stream may be cut where it is long. -/
def writeVar (record : Producer → ℕ → ℕ → Producer) (pstream : Producer) (pb : Bytes) : Producer :=
  let pstream := pstream.writeUint32 (.ofNat pb.length)
  let position := pstream.offset
  let pstream := pstream.writeInternal pb
  if pointLength ≤ pb.length then record pstream position pb.length else pstream.tryRecodeNbp

def writeString (pstream : Producer) (pstr : CString) : Producer :=
  writeVar recordLvp pstream (pstr.bytes ++ [0])

def writeBinary (pstream : Producer) (pb : Bytes) : Producer := writeVar recordLvp pstream pb

variable (x : Setup)

/-- The string with its null, and the null alone where it cannot be converted. -/
def utf16 (pstr : CString) : Bytes :=
  match x.utf8ToUtf16le pstr with
  | some w => if w.length < 2 then [0, 0] else w
  | none => [0, 0]

def writeWstring (pstream : Producer) (pstr : CString) : Producer :=
  writeVar recordWsp pstream (utf16 x pstr)

/-- What says which of the properties of the set it is. -/
def propnameId (propname : PropertyName) : Option Bytes :=
  if propname.kind = 0 then propname.plid.map fun plid => le 4 plid.toNat
  else if propname.kind = 1 then propname.pname.map (utf16 x)
  else none

/-- The name of a property, as far as the buffer for it holds it. -/
def propnameBytes (propname : PropertyName) : Option Bytes := do
  let id ← propnameId x propname
  let bytes := guidToBinary propname.guid ++ [propname.kind] ++ id
  if bytes.length ≤ 1024 then some bytes else none

def writePropdef (pstream : Producer) (proptype propid : UInt16) : Option Producer :=
  let pstream := pstream.writeInternal (le 2 proptype.toNat)
  let pstream := pstream.writeInternal (le 2 propid.toNat)
  if propid &&& 0x8000 = 0 then some pstream.tryRecodeNbp
  else do
    let propname ← x.namedPropname propid
    let bytes ← propnameBytes x propname
    some (pstream.writeInternal bytes).tryRecodeNbp

/-- The type that a string is given and the one that is written for it, and the string itself. -/
def stringForm (option : StringOption) (cpid proptype : UInt16) (pstr : CString) :
    UInt16 × UInt16 × CString :=
  if proptype = 0x001E then
    if option.forceUnicode then (0x001F, 0x001F, x.convertString true pstr)
    else if option.cpid then (0x001E, 0x8000 ||| cpid, pstr)
    else (0x001E, 0x001E, pstr)
  else
    if option.forceUnicode then (0x001F, 0x001F, pstr)
    else if option.cpid then (0x001F, 0x8000 ||| 1200, pstr)
    else if option.none then (0x001E, 0x001E, x.convertString false pstr)
    else (0x001F, 0x001F, pstr)

/-- The value behind its definition. -/
def writeValue (pstream : Producer) (proptype : UInt16) (pvalue : PropVal) : Option Producer :=
  match label proptype, pvalue with
  | some .short, .short v => some (pstream.writeUint16 v)
  | some .error, .long v | some .long, .long v => some (pstream.writeUint32 v)
  | some .float, .float bits => some (pstream.writeUint32 bits)
  | some .double, .double bits | some .floatingtime, .double bits =>
    some (pstream.writeUint64 bits)
  | some .byte, .byte v => some (pstream.writeUint16 v.toUInt16)
  | some .currency, .longlong v | some .longlong, .longlong v | some .filetime, .longlong v =>
    some (pstream.writeUint64 v)
  | some .string, .string pstr => some (pstream.writeString pstr)
  | some .wstring, .string pstr => some (pstream.writeWstring x pstr)
  | some .guid, .guid r => some (pstream.writeGuid r)
  | some .object, .binary pb | some .binary, .binary pb => some (pstream.writeBinary pb)
  | some .shortArray, .shortArray ps =>
    some (ps.foldl writeUint16 (pstream.writeUint32 (.ofNat ps.length)))
  | some .longArray, .longArray pl =>
    some (pl.foldl writeUint32 (pstream.writeUint32 (.ofNat pl.length)))
  | some .longlongArray, .longlongArray pll =>
    some (pll.foldl writeUint64 (pstream.writeUint32 (.ofNat pll.length)))
  | some .stringArray, .stringArray ppstr =>
    some (ppstr.foldl writeString (pstream.writeUint32 (.ofNat ppstr.length)))
  | some .wstringArray, .stringArray ppstr =>
    some (ppstr.foldl (writeWstring x) (pstream.writeUint32 (.ofNat ppstr.length)))
  | some .guidArray, .guidArray pguid =>
    some (pguid.foldl writeGuid (pstream.writeUint32 (.ofNat pguid.length)))
  | some .binaryArray, .binaryArray pbin =>
    some (pbin.foldl writeBinary (pstream.writeUint32 (.ofNat pbin.length)))
  | _, _ => none

/-- The type that a value is written with, the one of its definition, and the value. -/
def valueForm (option : StringOption) (cpid : UInt16) (ppropval : TaggedPropval) :
    UInt16 × UInt16 × PropVal :=
  match ppropval with
  | .mk proptag pvalue =>
    let proptype := if proptag = 0x001A001F then 0x001E else proptypeOf proptag
    if propidOf proptag = 0x4017 then (proptype, 0x0003, pvalue)
    else
      match pvalue with
      | .string pstr =>
        if proptype = 0x001E ∨ proptype = 0x001F then
          let (proptype, writeType, pstr) := stringForm x option cpid proptype pstr
          (proptype, writeType, .string pstr)
        else (proptype, proptype, pvalue)
      | _ => (proptype, proptype, pvalue)

def writePropvalue (option : StringOption) (cpid : UInt16) (pstream : Producer)
    (ppropval : TaggedPropval) : Option Producer :=
  match ppropval with
  | .mk proptag _ =>
    if proptypeOf proptag = 0x00FB then some pstream
    else do
      let (proptype, writeType, pvalue) := valueForm x option cpid ppropval
      let pstream ← pstream.writePropdef x writeType (propidOf proptag)
      pstream.writeValue x proptype pvalue

def writeProplist (option : StringOption) (cpid : UInt16) (pstream : Producer)
    (pproplist : TpropvalArray) : Option Producer :=
  pproplist.foldlM (writePropvalue x option cpid) pstream

/-! ### Reading -/

/-- The end of the stream is a point. -/
def recordEnd (pstream : Producer) : Producer :=
  match pstream.bpList.getLast? with
  | none => pstream.recordNbp pstream.offset
  | some p => if p.offset ≠ pstream.offset then pstream.recordNbp pstream.offset else pstream

/-- The file is completed and read from its front. -/
def beginRead (pstream : Producer) : Producer :=
  { pstream.recordEnd with
    bRead := true
    fd := pstream.fd.map fun f => ⟨f.content ++ pstream.buffer, 0⟩ }

def curOffset (pstream : Producer) : ℕ :=
  match pstream.fd with
  | some f => f.position
  | none => pstream.readOffset

/-- The next bytes of the stream. -/
def take (pstream : Producer) (plen : ℕ) : Option (Bytes × Producer) :=
  match pstream.fd with
  | some f =>
    let pbuff := (f.content.drop f.position).take plen
    if pbuff.length = plen then
      some (pbuff, { pstream with fd := some { f with position := f.position + plen } })
    else none
  | none =>
    some ((pstream.buffer.drop pstream.readOffset).take plen,
      { pstream with readOffset := pstream.readOffset + plen })

/-- How much is read up to a point that is farther than that; `before` are those in front of it. -/
def cutLength (curOffset plen : ℕ) (before : List PointNode) (ppoint : PointNode) : Option ℕ :=
  match ppoint.type, before.getLast? with
  | .normalBreak, none => none
  | .normalBreak, some ppoint1 =>
    if ppoint1.offset < curOffset then none else some (sub32 ppoint1.offset curOffset % 2 ^ 16)
  | .wstring, none => some (if plen % 2 ≠ 0 then plen - 1 else plen)
  | .wstring, some ppoint1 =>
    some (if (plen + 2 ^ 32 - sub32 ppoint1.offset curOffset) % 2 ≠ 0 then plen - 1 else plen)
  | .longVar, _ => some plen

/-- `ftstream_producer_read_buffer`: the piece, and whether it is the last one. -/
def readBuffer (pstream : Producer) (plen : ℕ) : Option (Bytes × Bool × Producer) :=
  let pstream := if pstream.bRead then pstream else pstream.beginRead
  let curOffset := pstream.curOffset
  match pstream.bpList.span fun p => sub32 p.offset curOffset ≤ plen with
  | (before, ppoint :: after) => do
    let plen ← cutLength curOffset plen before ppoint
    let (pbuff, pstream) ← { pstream with bpList := ppoint :: after }.take plen
    some (pbuff, false, pstream)
  | (_, []) => do
    let ppoint ← pstream.bpList.getLast?
    if ppoint.offset < curOffset then none
    else do
      let (pbuff, _) ← { pstream with bpList := [] }.take (sub32 ppoint.offset curOffset % 2 ^ 16)
      some (pbuff, true, create)

/-- The pieces that are asked for one after another, up to the last one. -/
def download : List ℕ → Producer → Option (List Bytes × Bool)
  | [], _ => some ([], false)
  | plen :: plens, pstream => do
    let (pbuff, last, pstream) ← pstream.readBuffer plen
    if last then some ([pbuff], true)
    else do
      let (pieces, last) ← download plens pstream
      some (pbuff :: pieces, last)

end Producer

end SteepSystem.Ftstreams
