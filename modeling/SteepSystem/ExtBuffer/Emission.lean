import SteepSystem.ExtBuffer.Push

/-!
What the push functions of `ext_buffer.c` write for property values, restrictions, rule actions,
rows and message trees.
-/

namespace SteepSystem.ExtBuffer

open SteepSystem.Lib.Bytes

variable (x : Setup)

def pushUint8 (v : UInt8) : Emit := .bytes (le 1 v.toNat)

def pushUint16 (v : UInt16) : Emit := .bytes (le 2 v.toNat)

def pushUint32 (v : UInt32) : Emit := .bytes (le 4 v.toNat)

def pushUint64 (v : UInt64) : Emit := .bytes (le 8 v.toNat)

def pushFloat (bits : UInt32) : Emit := pushUint32 bits

def pushDouble (bits : UInt64) : Emit := pushUint64 bits

def pushBlock {n : ℕ} (r : Block n) : Emit := .bytes r.1

def pushGuid (r : Guid) : Emit :=
  .seq (pushUint32 r.timeLow) <| .seq (pushUint16 r.timeMid) <|
    .seq (pushUint16 r.timeHiAndVersion) <| .seq (pushBlock r.clockSeq) (pushBlock r.node)

/-- `len` is an `int`, so it has 32 bits of the length. -/
def pushString (pstr : CString) : Emit :=
  let len := (pstr.bytes.length + 1) % 2 ^ 32
  if x.tbllmt ∧ 510 < len ∧ len < 2 ^ 31 then .seq (.bytes (pstr.bytes.take 509)) (pushUint8 0)
  else .bytes ((pstr.bytes ++ [0]).take len)

/-- A string that is not converted, or not into a buffer of `len` bytes, is written as an empty
one. -/
def pushWstring (pstr : CString) : Emit :=
  if ¬ x.utf16 then pushString x pstr
  else
    let len := (2 * pstr.bytes.length + 2) % 2 ^ 32
    if 2 ^ 31 ≤ len then .fail .alloc
    else
      let pbuff :=
        match x.iconv.toUtf16 pstr with
        | some w => if w.length + 2 ≤ len then w ++ [0, 0] else [0, 0]
        | none => [0, 0]
      if x.tbllmt ∧ 510 < pbuff.length then .units (pbuff.take 508 ++ [0, 0])
      else .units pbuff

def pushBinary (pb : Bytes) : Emit :=
  if 2 ^ 32 ≤ pb.length then .undefined
  else if x.wcount then .seq (pushUint32 (.ofNat pb.length)) (.bytes pb)
  else if 0xFFFF < pb.length then .fail .format
  else .seq (pushUint16 (.ofNat pb.length)) (.bytes pb)

/-- The elements of an array, one after the other. -/
def pushEach {α : Type} (push : α → Emit) : List α → Emit
  | [] => .nothing
  | v :: l => .seq (push v) (pushEach push l)

/-- An array behind a count of 32 bits, over which an `int` runs. -/
def pushArray {α : Type} (push : α → Emit) (l : List α) : Emit :=
  if 2 ^ 31 ≤ l.length then .undefined
  else .seq (pushUint32 (.ofNat l.length)) (pushEach push l)

def pushShortArray (ps : List UInt16) : Emit := pushArray pushUint16 ps

def pushLongArray (pl : List UInt32) : Emit := pushArray pushUint32 pl

def pushLonglongArray (pll : List UInt64) : Emit := pushArray pushUint64 pll

def pushBinaryArray (pbin : List Bytes) : Emit := pushArray (pushBinary x) pbin

def pushStringArray (ppstr : List CString) : Emit := pushArray (pushString x) ppstr

def pushWstringArray (ppstr : List CString) : Emit := pushArray (pushWstring x) ppstr

def pushGuidArray (pguid : List Guid) : Emit := pushArray pushGuid pguid

/-- The size of the binary is written in 16 bits. -/
def pushSvreid : Svreid → Emit
  | .other pbin =>
    if 2 ^ 32 ≤ pbin.length then .undefined
    else .seq (pushUint16 (.ofNat (pbin.length + 1))) (.seq (pushUint8 0) (.bytes pbin))
  | .ours folderId messageId instance_ =>
    .seq (pushUint16 21) <| .seq (pushUint8 1) <| .seq (pushUint64 folderId) <|
      .seq (pushUint64 messageId) (pushUint32 instance_)

def pushStoreEntryid (r : StoreEntryid) : Emit :=
  .seq (pushUint32 r.flags) <| .seq (pushBlock r.providerUid) <| .seq (pushUint8 r.version) <|
    .seq (pushUint8 r.flag) <| .seq (pushBlock r.dllName) <| .seq (pushUint32 r.wrappedFlags) <|
    .seq (pushBlock r.wrappedProviderUid) <| .seq (pushUint32 r.wrappedType) <|
    .seq (pushString x r.pserverName) (pushString x r.pmailboxDn)

def pushMovecopyAction : MovecopyAction → Emit
  | .otherStore none _ => .seq (pushUint8 0) (.seq (.bytes [0, 0]) (.fail .format))
  | .otherStore (some pstoreEid) pfolderEid =>
    .seq (pushUint8 0) <| .seq (.sized 2 (pushStoreEntryid x pstoreEid)) (pushBinary x pfolderEid)
  | .sameStore flag pfolderEid =>
    .seq (pushUint8 flag) <| .seq (pushUint16 1) <| .seq (pushUint8 0) (pushSvreid pfolderEid)

def pushReplyAction (r : ReplyAction) : Emit :=
  .seq (pushUint64 r.templateFolderId) <| .seq (pushUint64 r.templateMessageId)
    (pushGuid r.templateGuid)

/-- The count of a `RESTRICTION_AND_OR`, cut to 16 bits without `EXT_FLAG_WCOUNT`. -/
def pushAndOrCount (count : ℕ) : Emit :=
  if 2 ^ 31 ≤ count then .undefined
  else if x.wcount then pushUint32 (.ofNat count)
  else pushUint16 (.ofNat count)

/-- A count that must not be zero and has a field of `2 ^ n` values. -/
def pushSome (n count : ℕ) (rest : Emit) : Emit :=
  if 2 ^ n ≤ count then .undefined
  else if count = 0 then .fail .format
  else rest

mutual

/-- The label in the `switch` and what the pointer is taken to point to. -/
def pushPropval (type : UInt16) : PropVal → Emit
  | .null =>
    match PropvalType.of type with
    | none => .fail .badSwitch
    | some _ => .undefined
  | .typed t v =>
    match PropvalType.of type with
    | some .unspecified => .seq (pushUint16 t) (pushPropval t v)
    | none => .fail .badSwitch
    | some _ => .undefined
  | .short v =>
    match PropvalType.of type with
    | some .short => pushUint16 v
    | none => .fail .badSwitch
    | some _ => .undefined
  | .long v =>
    match PropvalType.of type with
    | some .long | some .error => pushUint32 v
    | none => .fail .badSwitch
    | some _ => .undefined
  | .float bits =>
    match PropvalType.of type with
    | some .float => pushFloat bits
    | none => .fail .badSwitch
    | some _ => .undefined
  | .double bits =>
    match PropvalType.of type with
    | some .double | some .floatingtime => pushDouble bits
    | none => .fail .badSwitch
    | some _ => .undefined
  | .byte v =>
    match PropvalType.of type with
    | some .byte => pushUint8 v
    | none => .fail .badSwitch
    | some _ => .undefined
  | .longlong v =>
    match PropvalType.of type with
    | some .currency | some .longlong | some .filetime => pushUint64 v
    | none => .fail .badSwitch
    | some _ => .undefined
  | .string pstr =>
    match PropvalType.of type with
    | some .string => pushString x pstr
    | some .wstring => pushWstring x pstr
    | none => .fail .badSwitch
    | some _ => .undefined
  | .guid r =>
    match PropvalType.of type with
    | some .guid => pushGuid r
    | none => .fail .badSwitch
    | some _ => .undefined
  | .svreid r =>
    match PropvalType.of type with
    | some .svreid => pushSvreid r
    | none => .fail .badSwitch
    | some _ => .undefined
  | .restriction r =>
    match PropvalType.of type with
    | some .restriction => pushRestriction r
    | none => .fail .badSwitch
    | some _ => .undefined
  | .rule pblock =>
    match PropvalType.of type with
    | some .rule =>
      pushSome 16 pblock.length
        (.seq (pushUint16 (.ofNat pblock.length)) (pushActionBlocks pblock))
    | none => .fail .badSwitch
    | some _ => .undefined
  | .binary pb =>
    match PropvalType.of type with
    | some .binary | some .object => pushBinary x pb
    | none => .fail .badSwitch
    | some _ => .undefined
  | .shortArray ps =>
    match PropvalType.of type with
    | some .shortArray => pushShortArray ps
    | none => .fail .badSwitch
    | some _ => .undefined
  | .longArray pl =>
    match PropvalType.of type with
    | some .longArray => pushLongArray pl
    | none => .fail .badSwitch
    | some _ => .undefined
  | .longlongArray pll =>
    match PropvalType.of type with
    | some .longlongArray => pushLonglongArray pll
    | none => .fail .badSwitch
    | some _ => .undefined
  | .stringArray ppstr =>
    match PropvalType.of type with
    | some .stringArray => pushStringArray x ppstr
    | some .wstringArray => pushWstringArray x ppstr
    | none => .fail .badSwitch
    | some _ => .undefined
  | .guidArray pguid =>
    match PropvalType.of type with
    | some .guidArray => pushGuidArray pguid
    | none => .fail .badSwitch
    | some _ => .undefined
  | .binaryArray pbin =>
    match PropvalType.of type with
    | some .binaryArray => pushBinaryArray x pbin
    | none => .fail .badSwitch
    | some _ => .undefined

def pushTaggedPropval : TaggedPropval → Emit
  | .mk proptag pvalue => .seq (pushUint32 proptag) (pushPropval proptag.toUInt16 pvalue)

def pushTaggedPropvals : List TaggedPropval → Emit
  | [] => .nothing
  | r :: l => .seq (pushTaggedPropval r) (pushTaggedPropvals l)

def pushRestriction : Restriction → Emit
  | .and pres =>
    .seq (pushUint8 0x00) <| .seq (pushAndOrCount x pres.length) (pushRestrictions pres)
  | .or pres =>
    .seq (pushUint8 0x01) <| .seq (pushAndOrCount x pres.length) (pushRestrictions pres)
  | .not res => .seq (pushUint8 0x02) (pushRestriction res)
  | .content fuzzyLevel proptag propval =>
    .seq (pushUint8 0x03) <| .seq (pushUint32 fuzzyLevel) <| .seq (pushUint32 proptag)
      (pushTaggedPropval propval)
  | .property relop proptag propval =>
    .seq (pushUint8 0x04) <| .seq (pushUint8 relop) <| .seq (pushUint32 proptag)
      (pushTaggedPropval propval)
  | .propcompare relop proptag1 proptag2 =>
    .seq (pushUint8 0x05) <| .seq (pushUint8 relop) <| .seq (pushUint32 proptag1)
      (pushUint32 proptag2)
  | .bitmask bitmaskRelop proptag mask =>
    .seq (pushUint8 0x06) <| .seq (pushUint8 bitmaskRelop) <| .seq (pushUint32 proptag)
      (pushUint32 mask)
  | .size relop proptag size =>
    .seq (pushUint8 0x07) <| .seq (pushUint8 relop) <| .seq (pushUint32 proptag)
      (pushUint32 size)
  | .exist proptag => .seq (pushUint8 0x08) (pushUint32 proptag)
  | .subobj subobject res =>
    .seq (pushUint8 0x09) <| .seq (pushUint32 subobject) (pushRestriction res)
  | .comment ppropval pres =>
    .seq (pushUint8 0x0a) <| pushSome 8 ppropval.length <|
      .seq (pushUint8 (.ofNat ppropval.length)) <| .seq (pushTaggedPropvals ppropval) <|
      pushPresentRestriction pres
  | .count count subRes =>
    .seq (pushUint8 0x0b) <| .seq (pushUint32 count) (pushRestriction subRes)
  | .null => pushUint8 0xff

def pushPresentRestriction : Option Restriction → Emit
  | some pres => .seq (pushUint8 1) (pushRestriction pres)
  | none => pushUint8 0

def pushRestrictions : List Restriction → Emit
  | [] => .nothing
  | r :: l => .seq (pushRestriction r) (pushRestrictions l)

def pushRecipientBlock : RecipientBlock → Emit
  | .mk reserved ppropval =>
    pushSome 16 ppropval.length <|
      .seq (pushUint8 reserved) <| .seq (pushUint16 (.ofNat ppropval.length))
      (pushTaggedPropvals ppropval)

def pushRecipientBlocks : List RecipientBlock → Emit
  | [] => .nothing
  | r :: l => .seq (pushRecipientBlock r) (pushRecipientBlocks l)

/-- The case of `ACTION_TYPE_OP_TAG` runs on into the next one, where the status is set. -/
def pushActionData (type : UInt8) (length : UInt16) : ActionData → Emit
  | .null =>
    match ActionType.of type with
    | some .delete | some .markAsRead => .nothing
    | none => .fail .badSwitch
    | some _ => .undefined
  | .movecopy r =>
    match ActionType.of type with
    | some .move | some .copy => pushMovecopyAction x r
    | none => .fail .badSwitch
    | some _ => .undefined
  | .reply r =>
    match ActionType.of type with
    | some .reply | some .oofReply => pushReplyAction r
    | none => .fail .badSwitch
    | some _ => .undefined
  | .bytes data =>
    match ActionType.of type with
    | some .deferAction => if data.length = (length - 9).toNat then .bytes data else .undefined
    | none => .fail .badSwitch
    | some _ => .undefined
  | .bounce code =>
    match ActionType.of type with
    | some .bounce => pushUint32 code
    | none => .fail .badSwitch
    | some _ => .undefined
  | .forwarddelegate pblock =>
    match ActionType.of type with
    | some .forward | some .delegate =>
      pushSome 16 pblock.length
        (.seq (pushUint16 (.ofNat pblock.length)) (pushRecipientBlocks pblock))
    | none => .fail .badSwitch
    | some _ => .undefined
  | .tag r =>
    match ActionType.of type with
    | some .tag => .ignore (pushTaggedPropval r)
    | none => .fail .badSwitch
    | some _ => .undefined

def pushActionBlock : ActionBlock → Emit
  | .mk length type flavor flags pdata =>
    .sized 2 <| .seq (pushUint8 type) <| .seq (pushUint32 flavor) <| .seq (pushUint32 flags)
      (pushActionData type length pdata)

def pushActionBlocks : List ActionBlock → Emit
  | [] => .nothing
  | r :: l => .seq (pushActionBlock r) (pushActionBlocks l)

end

def pushRuleActions (pblock : List ActionBlock) : Emit :=
  pushSome 16 pblock.length
    (.seq (pushUint16 (.ofNat pblock.length)) (pushActionBlocks x pblock))

/-! Property lists, rows and message trees. -/

/-- An array whose count has 16 bits. -/
def pushSarray {α : Type} (push : α → Emit) (l : List α) : Emit :=
  if 2 ^ 16 ≤ l.length then .undefined
  else .seq (pushUint16 (.ofNat l.length)) (pushEach push l)

def pushTpropvalArray (r : TpropvalArray) : Emit := pushSarray (pushTaggedPropval x) r

def pushTarraySet (r : TarraySet) : Emit := pushArray (pushTpropvalArray x) r

/-- `FLAGGED_PROPVAL_FLAG_*`: available 0, unavailable 1, error 0xA. In a column without a type
the pointer of an error is not that of a `TYPED_PROPVAL`. -/
def pushFlaggedPropval (type : UInt16) (r : FlaggedPropval) : Emit :=
  if type = 0 then
    if r.flag = 1 then .seq (pushUint16 0) (pushFlaggedValue 0 r.pvalue)
    else if r.flag = 0xA then .seq (pushUint16 0x000A) (pushFlaggedValue 0x000A r.pvalue)
    else
      match r.pvalue with
      | .typed t v => .seq (pushUint16 t) (pushFlaggedValue t v)
      | _ => .undefined
  else pushFlaggedValue type r.pvalue
where
  pushFlaggedValue (type : UInt16) (pvalue : PropVal) : Emit :=
    .seq (pushUint8 r.flag) <|
      if r.flag = 0 then pushPropval x type pvalue
      else if r.flag = 1 then .nothing
      else if r.flag = 0xA then
        match pvalue with
        | .long v => pushUint32 v
        | _ => .undefined
      else .fail .badSwitch

/-- One cell for each column. -/
def pushCells {α β : Type} (push : α → β → Emit) : List α → List β → Emit
  | [], [] => .nothing
  | c :: columns, v :: l => .seq (push c v) (pushCells push columns l)
  | _, _ => .undefined

/-- `PROPERTY_ROW_FLAG_*`: none 0, flagged 1. -/
def pushPropertyRow (pcolumns : List UInt32) (r : PropertyRow) : Emit :=
  .seq (pushUint8 r.flag) <|
    if r.flag = 0 then
      pushCells (fun proptag cell =>
        match cell with
        | .value v => pushPropval x proptag.toUInt16 v
        | .flagged _ => .undefined) pcolumns r.pppropval
    else if r.flag = 1 then
      pushCells (fun proptag cell =>
        match cell with
        | .value _ => .undefined
        | .flagged r => pushFlaggedPropval x proptag.toUInt16 r) pcolumns r.pppropval
    else .fail .badSwitch

/-- What a pointer points to, unless it is null. -/
def pushPointed {α : Type} (push : α → Emit) : Option α → Emit
  | some v => push v
  | none => .nothing

/-- One of the names of a recipient. -/
def pushName (unicode : Bool) (s : CString) : Emit :=
  if unicode then pushWstring x s else pushString x s

/-- The flags are not compared with the pointers. -/
def pushRecipientRow (pproptags : List UInt32) (r : RecipientRow) : Emit :=
  let unicode : Bool := r.flags &&& 0x0200 ≠ 0
  .seq (pushUint16 r.flags) <|
    .seq (pushPointed pushUint8 r.pprefixUsed) <|
    .seq (pushPointed pushUint8 r.pdisplayType) <|
    .seq (pushPointed (pushString x) r.px500dn) <|
    .seq (pushPointed (pushBinary x) r.pentryId) <|
    .seq (pushPointed (pushBinary x) r.psearchKey) <|
    .seq (pushPointed (pushString x) r.paddressType) <|
    .seq (pushPointed (pushName x unicode) r.pmailAddress) <|
    .seq (pushPointed (pushName x unicode) r.pdisplayName) <|
    .seq (pushPointed (pushName x unicode) r.psimpleName) <|
    .seq (pushPointed (pushName x unicode) r.ptransmittableName) <|
    .seq (pushUint16 r.count) <|
    if pproptags.length < r.count.toNat then .fail .format
    else pushPropertyRow x (pproptags.take r.count.toNat) r.properties

def pushOpenrecipientRow (pproptags : List UInt32) (r : OpenrecipientRow) : Emit :=
  .seq (pushUint8 r.recipientType) <| .seq (pushUint16 r.cpid) <| .seq (pushUint16 r.reserved) <|
    .sized 2 (pushRecipientRow x pproptags r.recipientRow)

def pushModifyrecipientRow (pproptags : List UInt32) (r : ModifyrecipientRow) : Emit :=
  .seq (pushUint32 r.rowId) <| .seq (pushUint8 r.recipientType) <|
    match r.precipientRow with
    | none => pushUint16 0
    | some precipientRow => .sized 2 (pushRecipientRow x pproptags precipientRow)

def pushReadrecipientRow (pproptags : List UInt32) (r : ReadrecipientRow) : Emit :=
  .seq (pushUint32 r.rowId) <| .seq (pushUint8 r.recipientType) <| .seq (pushUint16 r.cpid) <|
    .seq (pushUint16 r.reserved) <| .sized 2 (pushRecipientRow x pproptags r.recipientRow)

/-- An optional part announced by a byte. -/
def pushPresent {α : Type} (push : α → Emit) : Option α → Emit
  | some r => .seq (pushUint8 1) (push r)
  | none => pushUint8 0

mutual

def pushMessageContent : MessageContent → Emit
  | .mk proplist prcpts pattachments =>
    .seq (pushTpropvalArray x proplist) <| .seq (pushPresent (pushTarraySet x) prcpts)
      (pushAttachmentList pattachments)

/-- The list of attachments of a message, if it has one. -/
def pushAttachmentList : Option (List AttachmentContent) → Emit
  | some pplist =>
    .seq (pushUint8 1) <|
      if 2 ^ 16 ≤ pplist.length then .undefined
      else .seq (pushUint16 (.ofNat pplist.length)) (pushAttachments pplist)
  | none => pushUint8 0

def pushAttachments : List AttachmentContent → Emit
  | [] => .nothing
  | r :: l => .seq (pushAttachment r) (pushAttachments l)

def pushAttachment : AttachmentContent → Emit
  | .mk proplist pembedded => .seq (pushTpropvalArray x proplist) (pushEmbedded pembedded)

def pushEmbedded : Option MessageContent → Emit
  | some r => .seq (pushUint8 1) (pushMessageContent r)
  | none => pushUint8 0

end

end SteepSystem.ExtBuffer
