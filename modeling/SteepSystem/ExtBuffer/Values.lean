import Mathlib.Data.List.TakeWhile
import SteepSystem.ExtBuffer.Cursor

/-!
The values that `ext_buffer.c` reads and writes (`LIBRARY/mapi_lib/include/mapi_types.h`):
property values, restrictions and rule actions, which contain one another, and the rows and
message trees built from them. An array with its count is a list, a pointer that may be null an
`Option`, and a float the bits it is copied as.
-/

namespace SteepSystem.ExtBuffer

/-- An array of `n` bytes. -/
abbrev Block (n : ℕ) := {bytes : Bytes // bytes.length = n}

def Block.of (n : ℕ) (bytes : Bytes) : Block n :=
  ⟨(bytes ++ List.replicate n 0).take n, by simp⟩

/-- A string as C has it: the bytes before its terminator. -/
structure CString where
  bytes : Bytes
  ne_zero : ∀ c ∈ bytes, c ≠ 0
  deriving DecidableEq

/-- The string at the start of a memory block. -/
def CString.of (raw : Bytes) : CString :=
  ⟨raw.takeWhile (· ≠ 0), fun c hc => by
    simpa using List.all_eq_true.mp (List.all_takeWhile (p := (· ≠ 0)) (l := raw)) c hc⟩

structure Guid where
  timeLow : UInt32
  timeMid : UInt16
  timeHiAndVersion : UInt16
  clockSeq : Block 2
  node : Block 6
  deriving DecidableEq

/-- `PROPVAL_TYPE_*` -/
inductive PropvalType
  | unspecified | short | long | float | double | currency | floatingtime | error | byte
  | object | longlong | string | wstring | filetime | guid | svreid | restriction | rule
  | binary | shortArray | longArray | longlongArray | stringArray | wstringArray | guidArray
  | binaryArray
  deriving DecidableEq

def PropvalType.code : PropvalType → ℕ
  | unspecified => 0x0000
  | short => 0x0002
  | long => 0x0003
  | float => 0x0004
  | double => 0x0005
  | currency => 0x0006
  | floatingtime => 0x0007
  | error => 0x000a
  | byte => 0x000b
  | object => 0x000d
  | longlong => 0x0014
  | string => 0x001e
  | wstring => 0x001f
  | filetime => 0x0040
  | guid => 0x0048
  | svreid => 0x00fb
  | restriction => 0x00fd
  | rule => 0x00fe
  | binary => 0x0102
  | shortArray => 0x1002
  | longArray => 0x1003
  | longlongArray => 0x1014
  | stringArray => 0x101e
  | wstringArray => 0x101f
  | guidArray => 0x1048
  | binaryArray => 0x1102

def PropvalType.all : List PropvalType :=
  [unspecified, short, long, float, double, currency, floatingtime, error, byte, object,
    longlong, string, wstring, filetime, guid, svreid, restriction, rule, binary, shortArray,
    longArray, longlongArray, stringArray, wstringArray, guidArray, binaryArray]

/-- The label that a type selects in the `switch` statements; a multi-value instance is taken
for its single value first. -/
def PropvalType.of (type : UInt16) : Option PropvalType :=
  let type := if type &&& 0x3000 = 0x3000 then type &&& ~~~0x3000 else type
  all.find? (·.code = type.toNat)

/-- `RESTRICTION_TYPE_*` -/
inductive RestrictionType
  | and | or | not | content | property | propcompare | bitmask | size | exist | subobj
  | comment | count | null
  deriving DecidableEq

def RestrictionType.code : RestrictionType → UInt8
  | and => 0x00
  | or => 0x01
  | not => 0x02
  | content => 0x03
  | property => 0x04
  | propcompare => 0x05
  | bitmask => 0x06
  | size => 0x07
  | exist => 0x08
  | subobj => 0x09
  | comment => 0x0a
  | count => 0x0b
  | null => 0xff

def RestrictionType.all : List RestrictionType :=
  [and, or, not, content, property, propcompare, bitmask, size, exist, subobj, comment, count,
    null]

def RestrictionType.of (rt : UInt8) : Option RestrictionType := all.find? (·.code = rt)

/-- `ACTION_TYPE_OP_*` -/
inductive ActionType
  | move | copy | reply | oofReply | deferAction | bounce | forward | delegate | tag | delete
  | markAsRead
  deriving DecidableEq

def ActionType.code : ActionType → UInt8
  | move => 0x1
  | copy => 0x2
  | reply => 0x3
  | oofReply => 0x4
  | deferAction => 0x5
  | bounce => 0x6
  | forward => 0x7
  | delegate => 0x8
  | tag => 0x9
  | delete => 0xA
  | markAsRead => 0xB

def ActionType.all : List ActionType :=
  [move, copy, reply, oofReply, deferAction, bounce, forward, delegate, tag, delete, markAsRead]

def ActionType.of (type : UInt8) : Option ActionType := all.find? (·.code = type)

/-- A `SVREID`: its three numbers where `pbin` is null, otherwise the binary. -/
inductive Svreid
  | ours (folderId messageId : UInt64) (instance_ : UInt32)
  | other (pbin : Bytes)
  deriving DecidableEq

structure StoreEntryid where
  flags : UInt32
  providerUid : Block 16
  version : UInt8
  flag : UInt8
  dllName : Block 14
  wrappedFlags : UInt32
  wrappedProviderUid : Block 16
  wrappedType : UInt32
  pserverName : CString
  pmailboxDn : CString
  deriving DecidableEq

/-- A `MOVECOPY_ACTION`: where `same_store` is zero the folder is a binary after the entry id of
its store, otherwise a `SVREID`. -/
inductive MovecopyAction
  | otherStore (pstoreEid : Option StoreEntryid) (pfolderEid : Bytes)
  | sameStore (flag : {flag : UInt8 // flag ≠ 0}) (pfolderEid : Svreid)
  deriving DecidableEq

structure ReplyAction where
  templateFolderId : UInt64
  templateMessageId : UInt64
  templateGuid : Guid
  deriving DecidableEq

mutual

/-- What a `void *` property value points to. -/
inductive PropVal
  | null
  | typed (type : UInt16) (pvalue : PropVal)
  | short (v : UInt16)
  | long (v : UInt32)
  | float (bits : UInt32)
  | double (bits : UInt64)
  | byte (v : UInt8)
  | longlong (v : UInt64)
  | string (pstr : CString)
  | guid (r : Guid)
  | svreid (r : Svreid)
  | restriction (r : Restriction)
  | rule (pblock : List ActionBlock)
  | binary (pb : Bytes)
  | shortArray (ps : List UInt16)
  | longArray (pl : List UInt32)
  | longlongArray (pll : List UInt64)
  | stringArray (ppstr : List CString)
  | guidArray (pguid : List Guid)
  | binaryArray (pbin : List Bytes)

inductive TaggedPropval
  | mk (proptag : UInt32) (pvalue : PropVal)

inductive Restriction
  | and (pres : List Restriction)
  | or (pres : List Restriction)
  | not (res : Restriction)
  | content (fuzzyLevel proptag : UInt32) (propval : TaggedPropval)
  | property (relop : UInt8) (proptag : UInt32) (propval : TaggedPropval)
  | propcompare (relop : UInt8) (proptag1 proptag2 : UInt32)
  | bitmask (bitmaskRelop : UInt8) (proptag mask : UInt32)
  | size (relop : UInt8) (proptag size : UInt32)
  | exist (proptag : UInt32)
  | subobj (subobject : UInt32) (res : Restriction)
  | comment (ppropval : List TaggedPropval) (pres : Option Restriction)
  | count (count : UInt32) (subRes : Restriction)
  | null

inductive RecipientBlock
  | mk (reserved : UInt8) (ppropval : List TaggedPropval)

/-- What the `pdata` of an `ACTION_BLOCK` points to. -/
inductive ActionData
  | null
  | movecopy (r : MovecopyAction)
  | reply (r : ReplyAction)
  | bytes (data : Bytes)
  | bounce (code : UInt32)
  | forwarddelegate (pblock : List RecipientBlock)
  | tag (r : TaggedPropval)

inductive ActionBlock
  | mk (length : UInt16) (type : UInt8) (flavor flags : UInt32) (pdata : ActionData)

end

abbrev TpropvalArray := List TaggedPropval

abbrev TarraySet := List TpropvalArray

structure FlaggedPropval where
  flag : UInt8
  pvalue : PropVal

/-- What a `void *` cell of a row points to. -/
inductive RowCell
  | value (v : PropVal)
  | flagged (r : FlaggedPropval)

structure PropertyRow where
  flag : UInt8
  pppropval : List RowCell

structure RecipientRow where
  flags : UInt16
  pprefixUsed : Option UInt8
  pdisplayType : Option UInt8
  px500dn : Option CString
  pentryId : Option Bytes
  psearchKey : Option Bytes
  paddressType : Option CString
  pmailAddress : Option CString
  pdisplayName : Option CString
  psimpleName : Option CString
  ptransmittableName : Option CString
  count : UInt16
  properties : PropertyRow

structure OpenrecipientRow where
  recipientType : UInt8
  cpid : UInt16
  reserved : UInt16
  recipientRow : RecipientRow

structure ModifyrecipientRow where
  rowId : UInt32
  recipientType : UInt8
  precipientRow : Option RecipientRow

structure ReadrecipientRow where
  rowId : UInt32
  recipientType : UInt8
  cpid : UInt16
  reserved : UInt16
  recipientRow : RecipientRow

mutual

inductive MessageContent
  | mk (proplist : TpropvalArray) (prcpts : Option TarraySet)
    (pattachments : Option (List AttachmentContent))

inductive AttachmentContent
  | mk (proplist : TpropvalArray) (pembedded : Option MessageContent)

end

/-- `utf8_to_utf16le` and `utf16le_to_utf8` of `LIBRARY/common/util.c` over `iconv`, on what
stands before the terminator. The buffers that are handed to them are never too small. -/
structure Iconv where
  toUtf16 : CString → Option Bytes
  toUtf8 : Bytes → Option CString

/-- The `flags` of an `EXT_PULL` or an `EXT_PUSH`, with the converters. -/
structure Setup where
  utf16 : Bool
  wcount : Bool
  tbllmt : Bool
  iconv : Iconv

/-- Whole units of 16 bits, none of them zero. -/
def Units : Bytes → Prop
  | [] => True
  | [_] => False
  | c :: d :: w => ¬ (c = 0 ∧ d = 0) ∧ Units w

/-- The converters as inverses of each other on valid strings. -/
structure Iconv.Lawful (c : Iconv) : Prop where
  nil : c.toUtf16 (.of []) = some []
  units : ∀ {s w}, c.toUtf16 s = some w → Units w
  toUtf8_toUtf16 : ∀ {s w}, c.toUtf16 s = some w → c.toUtf8 w = some s
  toUtf16_toUtf8 : ∀ {s w}, Units w → c.toUtf8 w = some s → c.toUtf16 s = some w

lemma CString.of_eq {s : CString} : .of s.bytes = s := by
  obtain ⟨bytes, h⟩ := s
  have htake : bytes.takeWhile (· ≠ 0) = bytes :=
    List.takeWhile_eq_self_iff.mpr fun c hc => by simpa using h c hc
  simp only [CString.of, CString.mk.injEq]
  exact htake

/-- The characters of units that hold ASCII ones. -/
def narrow : Bytes → Option Bytes
  | [] => some []
  | [_] => none
  | c :: d :: w => if c ≠ 0 ∧ c < 128 ∧ d = 0 then (narrow w).map (c :: ·) else none

def widen (bytes : Bytes) : Bytes := bytes.flatMap fun c => [c, 0]

/-- Converters of ASCII. -/
def asciiIconv : Iconv where
  toUtf16 s := if s.bytes.all (· < 128) then some (widen s.bytes) else none
  toUtf8 w := (narrow w).map .of

lemma narrow_widen {bytes : Bytes} (h : ∀ c ∈ bytes, c ≠ 0 ∧ c < 128) :
    narrow (widen bytes) = some bytes := by
  induction bytes with
  | nil => rfl
  | cons c bytes ih =>
    obtain ⟨hc, h⟩ := List.forall_mem_cons.mp h
    change narrow (c :: 0 :: widen bytes) = _
    rw [narrow, if_pos ⟨hc.1, hc.2, rfl⟩, ih h]
    rfl

lemma widen_narrow {w bytes : Bytes} (h : narrow w = some bytes) :
    widen bytes = w ∧ Units w ∧ ∀ c ∈ bytes, c ≠ 0 ∧ c < 128 := by
  induction w using narrow.induct generalizing bytes with
  | case1 =>
    cases h
    exact ⟨rfl, trivial, by simp⟩
  | case2 c => cases h
  | case3 c d w hc ih =>
    rw [narrow, if_pos hc] at h
    obtain ⟨bytes, hw, rfl⟩ := Option.map_eq_some_iff.mp h
    obtain ⟨hwide, hunits, hall⟩ := ih hw
    obtain ⟨h0, h128, rfl⟩ := hc
    refine ⟨?_, ⟨fun hz => h0 hz.1, hunits⟩, List.forall_mem_cons.mpr ⟨⟨h0, h128⟩, hall⟩⟩
    change c :: 0 :: widen bytes = _
    rw [hwide]
  | case4 c d w hc =>
    rw [narrow, if_neg hc] at h
    cases h

lemma asciiIconv_lawful : asciiIconv.Lawful := by
  have hto : ∀ {s w}, asciiIconv.toUtf16 s = some w → narrow w = some s.bytes := by
    intro s w h
    simp only [asciiIconv] at h
    split_ifs at h with hs
    cases h
    rw [List.all_eq_true] at hs
    exact narrow_widen fun c hc => ⟨s.ne_zero c hc, by simpa using hs c hc⟩
  constructor
  · rfl
  · intro s w h
    exact (widen_narrow (hto h)).2.1
  · intro s w h
    simp only [asciiIconv, hto h, Option.map_some, CString.of_eq]
  · intro s w hw h
    obtain ⟨bytes, hn, rfl⟩ := Option.map_eq_some_iff.mp h
    obtain ⟨hwide, -, hall⟩ := widen_narrow hn
    have hs : (CString.of bytes).bytes = bytes :=
      List.takeWhile_eq_self_iff.mpr fun c hc => by simpa using (hall c hc).1
    simp only [asciiIconv, hs, hwide]
    exact if_pos (List.all_eq_true.mpr fun c hc => by simpa using (hall c hc).2)

def unicodeSetup : Setup := { utf16 := true, wcount := false, tbllmt := false, iconv := asciiIconv }

end SteepSystem.ExtBuffer
