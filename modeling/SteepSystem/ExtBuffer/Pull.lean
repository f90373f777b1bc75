import SteepSystem.ExtBuffer.Values

/-!
The pull functions of `ext_buffer.c`, as programs over the cursor: scalars, strings, binaries and
arrays, then property values, restrictions and rule actions, which call each other up to a depth,
and the rows and message trees made of them.
-/

namespace SteepSystem.ExtBuffer

open SteepSystem.Lib.Bytes SteepSystem.Lib.Programs SteepSystem.Lib.Programs.Program

variable (x : Setup)

def pullAdvance (size : UInt32) : Pull Unit := skip size.toNat

def pullUint8 : Pull UInt8 := do
  let bs ← readFixed 1
  pure (.ofNat (ofLE bs))

def pullUint16 : Pull UInt16 := do
  let bs ← readFixed 2
  pure (.ofNat (ofLE bs))

def pullUint32 : Pull UInt32 := do
  let bs ← readFixed 4
  pure (.ofNat (ofLE bs))

def pullUint64 : Pull UInt64 := do
  let bs ← readFixed 8
  pure (.ofNat (ofLE bs))

def pullInt8 : Pull Int8 := do
  let v ← pullUint8
  pure v.toInt8

def pullInt16 : Pull Int16 := do
  let v ← pullUint16
  pure v.toInt16

def pullInt32 : Pull Int32 := do
  let v ← pullUint32
  pure v.toInt32

def pullInt64 : Pull Int64 := do
  let v ← pullUint64
  pure v.toInt64

def pullFloat : Pull UInt32 := pullUint32

def pullDouble : Pull UInt64 := pullUint64

/-- The byte has been passed when it is neither of the two. -/
def pullBool : Pull Bool := do
  let tmpByte ← pullUint8
  if tmpByte = 0 then pure false
  else if tmpByte = 1 then pure true
  else fail .format

def pullBytes (n : UInt32) : Pull Bytes := readBytes n.toNat

def pullBlock (n : ℕ) : Pull (Block n) := do
  let bs ← readBytes n
  pure (.of n bs)

structure RpcHeaderExt where
  version : UInt16
  flags : UInt16
  size : UInt16
  sizeActual : UInt16

def pullRpcHeaderExt : Pull RpcHeaderExt := do
  let version ← pullUint16
  let flags ← pullUint16
  let size ← pullUint16
  let sizeActual ← pullUint16
  pure { version, flags, size, sizeActual }

def pullGuid : Pull Guid := do
  let timeLow ← pullUint32
  let timeMid ← pullUint16
  let timeHiAndVersion ← pullUint16
  let clockSeq ← pullBlock 2
  let node ← pullBlock 6
  pure { timeLow, timeMid, timeHiAndVersion, clockSeq, node }

def pullString : Pull CString := do
  let raw ← peekString
  skip raw.length
  pure (.of raw)

def pullWstring : Pull CString :=
  if ¬ x.utf16 then pullString
  else do
    let raw ← peekWstring
    match x.iconv.toUtf8 (raw.take (raw.length - 2)) with
    | none => fail .charcnv
    | some pstr => do
      skip raw.length
      pure pstr

def pullDataBlob : Pull Bytes := readRest

/-- `cb` bytes in an allocation of their own, none for a count of zero. -/
def pullSized (cb : ℕ) : Pull Bytes :=
  if cb = 0 then pure []
  else do
    alloc
    readBytes cb

/-- A count of 32 bits under `EXT_FLAG_WCOUNT`, of 16 bits otherwise. -/
def pullCount : Pull ℕ :=
  if x.wcount then do
    let count ← pullUint32
    pure count.toNat
  else do
    let count ← pullUint16
    pure count.toNat

def pullBinary : Pull Bytes := do
  let cb ← pullCount x
  pullSized cb

def pullSbinary : Pull Bytes := do
  let cb ← pullUint16
  pullSized cb.toNat

def pullExbinary : Pull Bytes := do
  let cb ← pullUint32
  pullSized cb.toNat

/-- `count` elements in an allocation of their own, none for a count of zero. -/
def pullElements {α : Type} (p : Pull α) (count : ℕ) : Pull (List α) :=
  if count = 0 then pure []
  else do
    alloc
    p.replicate count

def pullArray {α : Type} (p : Pull α) : Pull (List α) := do
  let count ← pullUint32
  pullElements p count.toNat

def pullSarray {α : Type} (p : Pull α) : Pull (List α) := do
  let count ← pullUint16
  pullElements p count.toNat

def pullShortArray : Pull (List UInt16) := pullArray pullUint16

def pullLongArray : Pull (List UInt32) := pullArray pullUint32

def pullLonglongArray : Pull (List UInt64) := pullArray pullUint64

def pullSlonglongArray : Pull (List UInt64) := pullSarray pullUint64

def pullBinaryArray : Pull (List Bytes) := pullArray (pullBinary x)

def pullStringArray : Pull (List CString) := pullArray pullString

def pullWstringArray : Pull (List CString) := pullArray (pullWstring x)

def pullGuidArray : Pull (List Guid) := pullArray pullGuid

/-! Restrictions and rule actions, over the functions they call for what they contain. -/

/-- A count that must not be zero, as some of the arrays require. -/
def pullSome {α : Type} (p : Pull α) (count : ℕ) : Pull (List α) :=
  if count = 0 then fail .format
  else do
    alloc
    p.replicate count

def pullTaggedPropvalWith (propval : UInt16 → Pull PropVal) : Pull TaggedPropval := do
  let proptag ← pullUint32
  let pvalue ← propval proptag.toUInt16
  pure (.mk proptag pvalue)

def pullTypedPropvalWith (propval : UInt16 → Pull PropVal) : Pull PropVal := do
  let type ← pullUint16
  let pvalue ← propval type
  pure (.typed type pvalue)

def pullRestrictionAndOr (restriction : Pull Restriction) : Pull (List Restriction) := do
  let count ← pullCount x
  pullElements restriction count

def pullRestrictionContent (taggedPropval : Pull TaggedPropval) : Pull Restriction := do
  let fuzzyLevel ← pullUint32
  let proptag ← pullUint32
  let propval ← taggedPropval
  pure (.content fuzzyLevel proptag propval)

def pullRestrictionProperty (taggedPropval : Pull TaggedPropval) : Pull Restriction := do
  let relop ← pullUint8
  let proptag ← pullUint32
  let propval ← taggedPropval
  pure (.property relop proptag propval)

def pullRestrictionPropcompare : Pull Restriction := do
  let relop ← pullUint8
  let proptag1 ← pullUint32
  let proptag2 ← pullUint32
  pure (.propcompare relop proptag1 proptag2)

def pullRestrictionBitmask : Pull Restriction := do
  let bitmaskRelop ← pullUint8
  let proptag ← pullUint32
  let mask ← pullUint32
  pure (.bitmask bitmaskRelop proptag mask)

def pullRestrictionSize : Pull Restriction := do
  let relop ← pullUint8
  let proptag ← pullUint32
  let size ← pullUint32
  pure (.size relop proptag size)

def pullRestrictionExist : Pull Restriction := do
  let proptag ← pullUint32
  pure (.exist proptag)

def pullRestrictionSubobj (restriction : Pull Restriction) : Pull Restriction := do
  let subobject ← pullUint32
  let res ← restriction
  pure (.subobj subobject res)

def pullRestrictionComment (restriction : Pull Restriction)
    (taggedPropval : Pull TaggedPropval) : Pull Restriction := do
  let count ← pullUint8
  let ppropval ← pullSome taggedPropval count.toNat
  let resPresent ← pullUint8
  if resPresent ≠ 0 then do
    alloc
    let res ← restriction
    pure (.comment ppropval (some res))
  else pure (.comment ppropval none)

def pullRestrictionCount (restriction : Pull Restriction) : Pull Restriction := do
  let count ← pullUint32
  let subRes ← restriction
  pure (.count count subRes)

/-- The allocation of the binary's bytes is not checked. -/
def pullSvreid : Pull Svreid := do
  let length ← pullUint16
  let ours ← pullUint8
  if ours = 0 then do
    alloc
    let pbin ← pullBytes (length.toUInt32 - 1)
    pure (.other pbin)
  else if length ≠ 21 then fail .format
  else do
    let folderId ← pullUint64
    let messageId ← pullUint64
    let instance_ ← pullUint32
    pure (.ours folderId messageId instance_)

def pullStoreEntryid : Pull StoreEntryid := do
  let flags ← pullUint32
  let providerUid ← pullBlock 16
  let version ← pullUint8
  let flag ← pullUint8
  let dllName ← pullBlock 14
  let wrappedFlags ← pullUint32
  let wrappedProviderUid ← pullBlock 16
  let wrappedType ← pullUint32
  let pserverName ← pullString
  let pmailboxDn ← pullString
  pure { flags, providerUid, version, flag, dllName, wrappedFlags, wrappedProviderUid,
         wrappedType, pserverName, pmailboxDn }

def pullMovecopyAction : Pull MovecopyAction := do
  let sameStore ← pullUint8
  let eidSize ← pullUint16
  if h : sameStore = 0 then do
    alloc
    let pstoreEid ← pullStoreEntryid
    alloc
    let pfolderEid ← pullBinary x
    pure (.otherStore (some pstoreEid) pfolderEid)
  else do
    pullAdvance eidSize.toUInt32
    alloc
    let pfolderEid ← pullSvreid
    pure (.sameStore ⟨sameStore, h⟩ pfolderEid)

def pullReplyAction : Pull ReplyAction := do
  let templateFolderId ← pullUint64
  let templateMessageId ← pullUint64
  let templateGuid ← pullGuid
  pure { templateFolderId, templateMessageId, templateGuid }

def pullRecipientBlock (taggedPropval : Pull TaggedPropval) : Pull RecipientBlock := do
  let reserved ← pullUint8
  let count ← pullUint16
  let ppropval ← pullSome taggedPropval count.toNat
  pure (.mk reserved ppropval)

def pullForwarddelegateAction (taggedPropval : Pull TaggedPropval) :
    Pull (List RecipientBlock) := do
  let count ← pullUint16
  pullSome (pullRecipientBlock taggedPropval) count.toNat

def pullActionData (taggedPropval : Pull TaggedPropval) (type : UInt8) (length : UInt16) :
    Pull ActionData :=
  match ActionType.of type with
  | some .move | some .copy => do
    alloc
    let r ← pullMovecopyAction x
    pure (.movecopy r)
  | some .reply | some .oofReply => do
    alloc
    let r ← pullReplyAction
    pure (.reply r)
  | some .deferAction => do
    -- the length counts the type, the flavor and the flags too
    let tmpLen : UInt16 := length - 9
    alloc
    let data ← pullBytes tmpLen.toUInt32
    pure (.bytes data)
  | some .bounce => do
    alloc
    let code ← pullUint32
    pure (.bounce code)
  | some .forward | some .delegate => do
    alloc
    let pblock ← pullForwarddelegateAction taggedPropval
    pure (.forwarddelegate pblock)
  | some .tag => do
    alloc
    let r ← taggedPropval
    pure (.tag r)
  | some .delete | some .markAsRead => pure .null
  | none => fail .badSwitch

def pullActionBlock (taggedPropval : Pull TaggedPropval) : Pull ActionBlock := do
  let length ← pullUint16
  let type ← pullUint8
  let flavor ← pullUint32
  let flags ← pullUint32
  let pdata ← pullActionData x taggedPropval type length
  pure (.mk length type flavor flags pdata)

def pullRuleActionsWith (taggedPropval : Pull TaggedPropval) : Pull (List ActionBlock) := do
  let count ← pullUint16
  pullSome (pullActionBlock x taggedPropval) count.toNat

/-- A scalar in an allocation of its own. -/
def pullAs {α β : Type} (p : Pull α) (f : α → β) : Pull β := do
  alloc
  let v ← p
  pure (f v)

mutual

def pullRestriction : ℕ → Pull Restriction
  | 0 => deeper
  | depth + 1 => do
    let rt ← pullUint8
    match RestrictionType.of rt with
    | some .and => pullAs (pullRestrictionAndOr x (pullRestriction depth)) .and
    | some .or => pullAs (pullRestrictionAndOr x (pullRestriction depth)) .or
    | some .not => pullAs (pullRestriction depth) .not
    | some .content => do
      alloc
      pullRestrictionContent (pullTaggedPropvalWith (pullPropval depth))
    | some .property => do
      alloc
      pullRestrictionProperty (pullTaggedPropvalWith (pullPropval depth))
    | some .propcompare => do
      alloc
      pullRestrictionPropcompare
    | some .bitmask => do
      alloc
      pullRestrictionBitmask
    | some .size => do
      alloc
      pullRestrictionSize
    | some .exist => do
      alloc
      pullRestrictionExist
    | some .subobj => do
      alloc
      pullRestrictionSubobj (pullRestriction depth)
    | some .comment => do
      alloc
      pullRestrictionComment (pullRestriction depth) (pullTaggedPropvalWith (pullPropval depth))
    | some .count => do
      alloc
      pullRestrictionCount (pullRestriction depth)
    | some .null => pure .null
    | none => fail .badSwitch

def pullPropval : ℕ → UInt16 → Pull PropVal
  | 0, _ => deeper
  | depth + 1, type =>
    match PropvalType.of type with
    | some .unspecified => do
      alloc
      pullTypedPropvalWith (pullPropval depth)
    | some .short => pullAs pullUint16 .short
    | some .long | some .error => pullAs pullUint32 .long
    | some .float => pullAs pullFloat .float
    | some .double | some .floatingtime => pullAs pullDouble .double
    | some .byte => pullAs pullUint8 .byte
    | some .currency | some .longlong | some .filetime => pullAs pullUint64 .longlong
    | some .string => do
      let pstr ← pullString
      pure (.string pstr)
    | some .wstring => do
      let pstr ← pullWstring x
      pure (.string pstr)
    | some .svreid => pullAs pullSvreid .svreid
    | some .guid => pullAs pullGuid .guid
    | some .restriction => pullAs (pullRestriction depth) .restriction
    | some .rule => pullAs (pullRuleActionsWith x (pullTaggedPropvalWith (pullPropval depth))) .rule
    | some .binary | some .object => pullAs (pullBinary x) .binary
    | some .shortArray => pullAs pullShortArray .shortArray
    | some .longArray => pullAs pullLongArray .longArray
    | some .longlongArray => pullAs pullLonglongArray .longlongArray
    | some .stringArray => pullAs pullStringArray .stringArray
    | some .wstringArray => pullAs (pullWstringArray x) .stringArray
    | some .guidArray => pullAs pullGuidArray .guidArray
    | some .binaryArray => pullAs (pullBinaryArray x) .binaryArray
    | none => fail .badSwitch

end

def pullTypedPropval (depth : ℕ) : Pull PropVal := pullTypedPropvalWith (pullPropval x depth)

def pullTaggedPropval (depth : ℕ) : Pull TaggedPropval :=
  pullTaggedPropvalWith (pullPropval x depth)

def pullRuleActions (depth : ℕ) : Pull (List ActionBlock) :=
  pullRuleActionsWith x (pullTaggedPropval x depth)

/-! Property lists, rows and message trees. -/

def pullTpropvalArray (depth : ℕ) : Pull TpropvalArray := pullSarray (pullTaggedPropval x depth)

def pullTarraySet (depth : ℕ) : Pull TarraySet :=
  pullArray do
    alloc
    pullTpropvalArray x depth

/-- `FLAGGED_PROPVAL_FLAG_*`: available 0, unavailable 1, error 0xA. -/
def pullFlaggedPropval (depth : ℕ) (type : UInt16) : Pull FlaggedPropval :=
  if type = 0 then do
    let type ← pullUint16
    alloc
    let flag ← pullUint8
    let pvalue ← pullFlaggedValue flag type
    pure ⟨flag, .typed type pvalue⟩
  else do
    let flag ← pullUint8
    let pvalue ← pullFlaggedValue flag type
    pure ⟨flag, pvalue⟩
where
  pullFlaggedValue (flag : UInt8) (type : UInt16) : Pull PropVal :=
    if flag = 0 then pullPropval x depth type
    else if flag = 1 then pure .null
    else if flag = 0xA then pullAs pullUint32 .long
    else fail .badSwitch

/-- `PROPERTY_ROW_FLAG_*`: none 0, flagged 1. -/
def pullPropertyRow (depth : ℕ) (pcolumns : List UInt32) : Pull PropertyRow := do
  let flag ← pullUint8
  alloc
  if flag = 0 then do
    let pppropval ← forEach (fun proptag => do
      let v ← pullPropval x depth proptag.toUInt16
      pure (RowCell.value v)) pcolumns
    pure { flag, pppropval }
  else if flag = 1 then do
    let pppropval ← forEach (fun proptag => do
      alloc
      let r ← pullFlaggedPropval x depth proptag.toUInt16
      pure (RowCell.flagged r)) pcolumns
    pure { flag, pppropval }
  else fail .badSwitch

/-- Something that is there only under a condition. -/
def pullIf {α : Type} (c : Prop) [Decidable c] (p : Pull α) : Pull (Option α) :=
  if c then do
    let v ← p
    pure (some v)
  else pure none

/-- One of the names of a recipient. -/
def pullName (unicode : Bool) : Pull CString := if unicode then pullWstring x else pullString

/-- `RECIPIENT_ROW_TYPE_*` are the three lowest bits of the flags, `RECIPIENT_ROW_FLAG_*` others
of them. The second byte of an X500 name is read without a check of its allocation. -/
def pullRecipientRow (depth : ℕ) (pproptags : List UInt32) : Pull RecipientRow := do
  let flags ← pullUint16
  let type := flags &&& 0x0007
  let unicode : Bool := flags &&& 0x0200 ≠ 0
  let pprefixUsed ← pullIf (type = 1) (pullAs pullUint8 id)
  let pdisplayType ← pullIf (type = 1) pullUint8
  let px500dn ← pullIf (type = 1) pullString
  let pentryId ← pullIf (type = 6 ∨ type = 7) (pullAs (pullBinary x) id)
  let psearchKey ← pullIf (type = 6 ∨ type = 7) (pullAs (pullBinary x) id)
  let paddressType ← pullIf (type = 0 ∧ flags &&& 0x8000 ≠ 0) pullString
  let pmailAddress ← pullIf (flags &&& 0x0008 ≠ 0) (pullName x unicode)
  let pdisplayName ← pullIf (flags &&& 0x0010 ≠ 0) (pullName x unicode)
  let psimpleName ← pullIf (flags &&& 0x0400 ≠ 0) (pullName x unicode)
  let ptransmittableName ← pullIf (flags &&& 0x0020 ≠ 0) (pullName x unicode)
  -- `RECIPIENT_ROW_FLAG_SAME`, alone in the flags
  let (pdisplayName, ptransmittableName) :=
    if flags = 0x0040 then
      if pdisplayName = none ∧ ptransmittableName ≠ none then
        (ptransmittableName, ptransmittableName)
      else if pdisplayName ≠ none ∧ ptransmittableName = none then (pdisplayName, pdisplayName)
      else (pdisplayName, ptransmittableName)
    else (pdisplayName, ptransmittableName)
  let count ← pullUint16
  if pproptags.length < count.toNat then fail .format
  else do
    let properties ← pullPropertyRow x depth (pproptags.take count.toNat)
    pure { flags, pprefixUsed, pdisplayType, px500dn, pentryId, psearchKey, paddressType,
           pmailAddress, pdisplayName, psimpleName, ptransmittableName, count, properties }

/-- A structure that is to end `size` bytes on, at a place computed in 32 bits. -/
def pullWithin {α : Type} (size : ℕ) (p : Pull α) : Pull α := do
  let off ← tell
  let r ← p
  closeAt ((off + size) % 2 ^ 32)
  pure r

def pullOpenrecipientRow (depth : ℕ) (pproptags : List UInt32) : Pull OpenrecipientRow := do
  let recipientType ← pullUint8
  let cpid ← pullUint16
  let reserved ← pullUint16
  let rowSize ← pullUint16
  let recipientRow ← pullWithin rowSize.toNat (pullRecipientRow x depth pproptags)
  pure { recipientType, cpid, reserved, recipientRow }

def pullModifyrecipientRow (depth : ℕ) (pproptags : List UInt32) : Pull ModifyrecipientRow := do
  let rowId ← pullUint32
  let recipientType ← pullUint8
  let rowSize ← pullUint16
  if rowSize = 0 then pure { rowId, recipientType, precipientRow := none }
  else do
    let precipientRow ← pullWithin rowSize.toNat do
      alloc
      pullRecipientRow x depth pproptags
    pure { rowId, recipientType, precipientRow := some precipientRow }

def pullReadrecipientRow (depth : ℕ) (pproptags : List UInt32) : Pull ReadrecipientRow := do
  let rowId ← pullUint32
  let recipientType ← pullUint8
  let cpid ← pullUint16
  let reserved ← pullUint16
  let rowSize ← pullUint16
  let recipientRow ← pullWithin rowSize.toNat (pullRecipientRow x depth pproptags)
  pure { rowId, recipientType, cpid, reserved, recipientRow }

/-- An optional part announced by a byte. -/
def pullPresent {α : Type} (p : Pull α) : Pull (Option α) := do
  let tmpByte ← pullUint8
  if tmpByte ≠ 0 then do
    alloc
    let r ← p
    pure (some r)
  else pure none

/-- Unlike other arrays, the list is allocated for a count of zero too. -/
def pullAttachmentListWith (depth : ℕ) (messageContent : Pull MessageContent) :
    Pull (List AttachmentContent) := do
  let count ← pullUint16
  alloc
  replicate (do
    alloc
    let proplist ← pullTpropvalArray x depth
    let pembedded ← pullPresent messageContent
    pure (.mk proplist pembedded)) count.toNat

def pullMessageContent : ℕ → Pull MessageContent
  | 0 => deeper
  | depth + 1 => do
    let proplist ← pullTpropvalArray x depth
    let prcpts ← pullPresent (pullTarraySet x depth)
    let pattachments ← pullPresent (pullAttachmentListWith x depth (pullMessageContent depth))
    pure (.mk proplist prcpts pattachments)

end SteepSystem.ExtBuffer
