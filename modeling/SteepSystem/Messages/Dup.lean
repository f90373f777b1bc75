import SteepSystem.Containers.Model
import SteepSystem.ExtBuffer.Values
import SteepSystem.Texts.Utf8Filter

/-!
Copies and sizes of message trees: `propval_dup` and `propval_size`
(`LIBRARY/mapi_lib/propval.c`), their likes for restrictions and rule actions (`restriction.c`,
`rule_actions.c`), and `message_content_dup` and `message_content_get_size` (`element_data.c`).
Memory is granted, for zero bytes too. A list that is too long for its count is no value of C, and
neither is a pointer to something else than its type says.
-/

namespace SteepSystem.Messages

open ExtBuffer Lib.Growable
open Containers (Copy Container setPropval tpropvalArrayAppend)

/-- Why there is no copy: a null pointer is returned, an access leaves its block, or C does not say
what happens. -/
inductive Fault
  | null
  | outside
  | undefined
deriving DecidableEq

abbrev Dup := Except Fault

variable {α τ : Type} [DecidableEq τ]

/-- So many bytes allocated, and so many copied into them. -/
def memdup (allocated copied : ℕ) (a : α) : Dup α :=
  if copied ≤ allocated then .ok a else .error .outside

/-- A count that has a field of `2 ^ n` values. -/
def counted (n count : ℕ) (d : Dup α) : Dup α := if 2 ^ n ≤ count then .error .undefined else d

/-- A count for which a null pointer is returned when it is zero. -/
def countedSome (n count : ℕ) (d : Dup α) : Dup α :=
  counted n count (if count = 0 then .error .null else d)

/-- An array with what an element takes in the new block and in the copy. -/
def arrayDup (slot size : ℕ) (l : List α) : Dup (List α) :=
  counted 32 l.length
    (if l.length = 0 then .ok [] else memdup (slot * l.length) (size * l.length) l)

def eachDup (dup : α → Dup α) : List α → Dup (List α)
  | [] => .ok []
  | a :: l => do
    let a ← dup a
    let l ← eachDup dup l
    return a :: l

/-- An array whose elements are copied in a loop; its index is an `int`. -/
def loopDup (dup : α → Dup α) (l : List α) : Dup (List α) := counted 31 l.length (eachDup dup l)

def presentDup (dup : α → Dup α) : Option α → Dup (Option α)
  | some a => some <$> dup a
  | none => .ok none

/-- The label of a `switch` that returns a null pointer when there is none, and the labels that go
with what the pointer points to. -/
def labelled (label : Option τ) (labels : List τ) (d : Dup α) : Dup α :=
  match label with
  | none => .error .null
  | some t => if t ∈ labels then d else .error .undefined

/-- The label in the `switch` statements of `propval.c`, which know no multi-value instances. -/
def typeOf (type : UInt16) : Option PropvalType := PropvalType.all.find? (·.code = type.toNat)

def strdup (s : CString) : Dup CString := memdup (s.bytes.length + 1) (s.bytes.length + 1) s

/-- The `BINARY` in a value: its bytes with their count. -/
def binaryDup (pb : Bytes) : Dup Bytes := arrayDup 1 1 pb

/-- The case of `PROPVAL_TYPE_SVREID`. -/
def svreidDup : Svreid → Dup Svreid
  | .ours folderId messageId instance_ => memdup 32 32 (.ours folderId messageId instance_)
  | .other pbin => .other <$> binaryDup pbin

def storeEntryidDup (r : StoreEntryid) : Dup StoreEntryid := do
  let pserverName ← strdup r.pserverName
  let pmailboxDn ← strdup r.pmailboxDn
  return { r with pserverName, pmailboxDn }

/-- The folder is taken for a `SVREID` for a flag of one only. -/
def movecopyActionDup : MovecopyAction → Dup MovecopyAction
  | .otherStore pstoreEid pfolderEid => do
    let pstoreEid ← presentDup storeEntryidDup pstoreEid
    let pfolderEid ← binaryDup pfolderEid
    return .otherStore pstoreEid pfolderEid
  | .sameStore flag pfolderEid =>
    if flag.1 = 1 then .sameStore flag <$> svreidDup pfolderEid else .error .undefined

mutual

def propvalDup (type : UInt16) : PropVal → Dup PropVal
  | .null => .error .null
  | .typed t v => labelled (typeOf type) [.unspecified] (.typed t <$> propvalDup t v)
  | .short v => labelled (typeOf type) [.short] (memdup 2 2 (.short v))
  | .long v => labelled (typeOf type) [.error, .long] (memdup 4 4 (.long v))
  | .float bits => labelled (typeOf type) [.float] (memdup 4 4 (.float bits))
  | .double bits => labelled (typeOf type) [.double, .floatingtime] (memdup 8 8 (.double bits))
  | .byte v => labelled (typeOf type) [.byte] (memdup 1 1 (.byte v))
  | .longlong v =>
    labelled (typeOf type) [.currency, .longlong, .filetime] (memdup 8 8 (.longlong v))
  | .string pstr => labelled (typeOf type) [.string, .wstring] (.string <$> strdup pstr)
  | .guid r => labelled (typeOf type) [.guid] (memdup 16 16 (.guid r))
  | .svreid r => labelled (typeOf type) [.svreid] (.svreid <$> svreidDup r)
  | .restriction r => labelled (typeOf type) [.restriction] (.restriction <$> restrictionDup r)
  | .rule pblock =>
    labelled (typeOf type) [.rule] (.rule <$> countedSome 16 pblock.length (actionBlocksDup pblock))
  | .binary pb => labelled (typeOf type) [.binary, .object] (.binary <$> binaryDup pb)
  | .shortArray ps => labelled (typeOf type) [.shortArray] (.shortArray <$> arrayDup 2 2 ps)
  | .longArray pl => labelled (typeOf type) [.longArray] (.longArray <$> arrayDup 4 4 pl)
  | .longlongArray pll =>
    labelled (typeOf type) [.longlongArray] (.longlongArray <$> arrayDup 8 8 pll)
  | .stringArray ppstr =>
    labelled (typeOf type) [.stringArray, .wstringArray] (.stringArray <$> loopDup strdup ppstr)
  | .guidArray pguid =>
    -- the block is allocated for elements of the size of an `uint32_t`
    labelled (typeOf type) [.guidArray] (.guidArray <$> arrayDup 4 16 pguid)
  | .binaryArray pbin =>
    labelled (typeOf type) [.binaryArray] (.binaryArray <$> loopDup binaryDup pbin)

def taggedPropvalDup : TaggedPropval → Dup TaggedPropval
  | .mk proptag pvalue => .mk proptag <$> propvalDup proptag.toUInt16 pvalue

def taggedPropvalsDup : List TaggedPropval → Dup (List TaggedPropval)
  | [] => .ok []
  | r :: l => do
    let r ← taggedPropvalDup r
    let l ← taggedPropvalsDup l
    return r :: l

/-- `restriction_dup`, `restriction_dup_by_type` -/
def restrictionDup : Restriction → Dup Restriction
  | .and pres => .and <$> counted 31 pres.length (restrictionsDup pres)
  | .or pres => .or <$> counted 31 pres.length (restrictionsDup pres)
  | .not res => .not <$> restrictionDup res
  | .content fuzzyLevel proptag propval =>
    .content fuzzyLevel proptag <$> taggedPropvalDup propval
  | .property relop proptag propval => .property relop proptag <$> taggedPropvalDup propval
  | .propcompare relop proptag1 proptag2 => .ok (.propcompare relop proptag1 proptag2)
  | .bitmask bitmaskRelop proptag mask => .ok (.bitmask bitmaskRelop proptag mask)
  | .size relop proptag size => .ok (.size relop proptag size)
  | .exist proptag => .ok (.exist proptag)
  | .subobj subobject res => .subobj subobject <$> restrictionDup res
  | .comment ppropval pres => do
    let ppropval ← counted 8 ppropval.length (taggedPropvalsDup ppropval)
    let pres ← presentRestrictionDup pres
    return .comment ppropval pres
  | .count count subRes => .count count <$> restrictionDup subRes
  | .null => .error .null

def presentRestrictionDup : Option Restriction → Dup (Option Restriction)
  | some pres => some <$> restrictionDup pres
  | none => .ok none

def restrictionsDup : List Restriction → Dup (List Restriction)
  | [] => .ok []
  | r :: l => do
    let r ← restrictionDup r
    let l ← restrictionsDup l
    return r :: l

/-- `recipient_block_dup_internal` -/
def recipientBlockDup : RecipientBlock → Dup RecipientBlock
  | .mk reserved ppropval =>
    .mk reserved <$> countedSome 16 ppropval.length (taggedPropvalsDup ppropval)

def recipientBlocksDup : List RecipientBlock → Dup (List RecipientBlock)
  | [] => .ok []
  | r :: l => do
    let r ← recipientBlockDup r
    let l ← recipientBlocksDup l
    return r :: l

/-- The `switch` of `action_block_dup_internal`. -/
def actionDataDup (type : UInt8) (length : UInt16) : ActionData → Dup ActionData
  | .null => labelled (ActionType.of type) [.delete, .markAsRead] (.ok .null)
  | .movecopy r =>
    labelled (ActionType.of type) [.move, .copy] (.movecopy <$> movecopyActionDup r)
  | .reply r => labelled (ActionType.of type) [.reply, .oofReply] (memdup 32 32 (.reply r))
  | .bytes data =>
    labelled (ActionType.of type) [.deferAction]
      (if data.length = (length - 9).toNat then
        memdup (length - 9).toNat (length - 9).toNat (.bytes data)
      else .error .undefined)
  | .bounce code => labelled (ActionType.of type) [.bounce] (memdup 4 4 (.bounce code))
  | .forwarddelegate pblock =>
    labelled (ActionType.of type) [.forward, .delegate]
      (.forwarddelegate <$> countedSome 16 pblock.length (recipientBlocksDup pblock))
  | .tag r => labelled (ActionType.of type) [.tag] (.tag <$> taggedPropvalDup r)

/-- `action_block_dup_internal` -/
def actionBlockDup : ActionBlock → Dup ActionBlock
  | .mk length type flavor flags pdata =>
    .mk length type flavor flags <$> actionDataDup type length pdata

/-- The loop of `rule_actions_dup`. -/
def actionBlocksDup : List ActionBlock → Dup (List ActionBlock)
  | [] => .ok []
  | r :: l => do
    let r ← actionBlockDup r
    let l ← actionBlocksDup l
    return r :: l

end

/-! Sizes, where one comes about. -/

/-- `utf8_len`, with the bytes that the pointer still has to pass over. A pointer behind the
terminator is read from too. -/
def utf8LenLoop (clen : ℤ) : ℕ → ℕ → List UInt8 → Option (Option ℕ)
  | 0, len, [] => some (some len)
  | _ + 1, _, [] => none
  | 0, len, ch :: s =>
    if clen ≤ len then some (some len)
    else if Texts.Utf8Filter.utf8ByteNum ch = 0 then some none
    else utf8LenLoop clen (Texts.Utf8Filter.utf8ByteNum ch - 1) (len + 1) s
  | skip + 1, len, _ :: s => utf8LenLoop clen skip len s

/-- The length of the string is put into an `int`. -/
def utf8Len (str : CString) : Option (Option ℕ) :=
  utf8LenLoop (Int.bmod str.bytes.length (2 ^ 32)) 0 0 str.bytes

def propvalUtf16Len (str : CString) : Option UInt32 :=
  (utf8Len str).map fun len => len.elim 0 fun len => .ofNat (2 * len)

def plus (a b : Option UInt32) : Option UInt32 := do
  let a ← a
  let b ← b
  return a + b

def eachSize (size : α → Option UInt32) : List α → Option UInt32
  | [] => some 0
  | a :: l => plus (size a) (eachSize size l)

/-- The label of a `switch` that adds nothing when there is none. -/
def labelledSize (label : Option τ) (labels : List τ) (s : Option UInt32) : Option UInt32 :=
  match label with
  | none => some 0
  | some t => if t ∈ labels then s else none

/-- The sizes for which the value is not read. -/
def fixedSize : PropvalType → Option UInt32
  | .short => some 2
  | .error | .long => some 4
  | .float => some 4
  | .double | .floatingtime => some 8
  | .byte => some 1
  | .currency | .longlong | .filetime => some 8
  | .guid => some 16
  | _ => none

def svreidSize : Svreid → UInt32
  | .ours .. => 21
  | .other pbin => .ofNat pbin.length + 1

def strSize (pstr : CString) : UInt32 := .ofNat (pstr.bytes.length + 1)

mutual

def propvalSize (type : UInt16) : PropVal → Option UInt32
  | .null => (typeOf type).elim (some 0) fixedSize
  | .typed t v => labelledSize (typeOf type) [.unspecified] (propvalSize t v)
  | .short _ => labelledSize (typeOf type) [.short] (some 2)
  | .long _ => labelledSize (typeOf type) [.error, .long] (some 4)
  | .float _ => labelledSize (typeOf type) [.float] (some 4)
  | .double _ => labelledSize (typeOf type) [.double, .floatingtime] (some 8)
  | .byte _ => labelledSize (typeOf type) [.byte] (some 1)
  | .longlong _ => labelledSize (typeOf type) [.currency, .longlong, .filetime] (some 8)
  | .string pstr =>
    labelledSize (typeOf type) [.string, .wstring]
      (if typeOf type = some .wstring then propvalUtf16Len pstr else some (strSize pstr))
  | .guid _ => labelledSize (typeOf type) [.guid] (some 16)
  | .svreid r => labelledSize (typeOf type) [.svreid] (some (svreidSize r))
  | .restriction r => labelledSize (typeOf type) [.restriction] (restrictionSize r)
  | .rule pblock =>
    labelledSize (typeOf type) [.rule] (plus (some 2) (actionBlocksSize pblock))
  | .binary pb => labelledSize (typeOf type) [.binary, .object] (some (.ofNat pb.length))
  | .shortArray ps => labelledSize (typeOf type) [.shortArray] (some (.ofNat (2 * ps.length)))
  | .longArray pl => labelledSize (typeOf type) [.longArray] (some (.ofNat (4 * pl.length)))
  | .longlongArray pll =>
    labelledSize (typeOf type) [.longlongArray] (some (.ofNat (8 * pll.length)))
  | .stringArray ppstr =>
    labelledSize (typeOf type) [.stringArray, .wstringArray]
      (if typeOf type = some .wstringArray then eachSize propvalUtf16Len ppstr
      else eachSize (some ∘ strSize) ppstr)
  | .guidArray pguid => labelledSize (typeOf type) [.guidArray] (some (.ofNat (16 * pguid.length)))
  | .binaryArray pbin =>
    labelledSize (typeOf type) [.binaryArray]
      (eachSize (fun pb : Bytes => some (.ofNat pb.length)) pbin)

/-- The value of a tag. -/
def taggedPropvalSize : TaggedPropval → Option UInt32
  | .mk proptag pvalue => propvalSize proptag.toUInt16 pvalue

/-- The values with their tags. -/
def taggedPropvalsSize : List TaggedPropval → Option UInt32
  | [] => some 0
  | r :: l => plus (plus (some 4) (taggedPropvalSize r)) (taggedPropvalsSize l)

/-- The type of the restriction takes a byte. -/
def restrictionSize : Restriction → Option UInt32
  | .and pres => plus (some 3) (restrictionsSize pres)
  | .or pres => plus (some 3) (restrictionsSize pres)
  | .not res => plus (some 1) (restrictionSize res)
  | .content _ _ propval => plus (some 13) (taggedPropvalSize propval)
  | .property _ _ propval => plus (some 10) (taggedPropvalSize propval)
  | .propcompare .. => some 10
  | .bitmask .. => some 10
  | .size .. => some 10
  | .exist _ => some 5
  | .subobj _ res => plus (some 5) (restrictionSize res)
  | .comment ppropval pres =>
    plus (some 3) (plus (taggedPropvalsSize ppropval) (presentRestrictionSize pres))
  | .count _ subRes => plus (some 5) (restrictionSize subRes)
  | .null => none

def presentRestrictionSize : Option Restriction → Option UInt32
  | some pres => restrictionSize pres
  | none => some 0

def restrictionsSize : List Restriction → Option UInt32
  | [] => some 0
  | r :: l => plus (restrictionSize r) (restrictionsSize l)

def recipientBlockSize : RecipientBlock → Option UInt32
  | .mk _ ppropval => plus (some 5) (taggedPropvalsSize ppropval)

def recipientBlocksSize : List RecipientBlock → Option UInt32
  | [] => some 0
  | r :: l => plus (recipientBlockSize r) (recipientBlocksSize l)

/-- The `switch` of `action_block_size`. Nothing is returned from `movecopy_action_size`. -/
def actionDataSize (type : UInt8) (length : UInt16) : ActionData → Option UInt32
  | .null => labelledSize (ActionType.of type) [.delete, .markAsRead] (some 0)
  | .movecopy _ => labelledSize (ActionType.of type) [.move, .copy] none
  | .reply _ => labelledSize (ActionType.of type) [.reply, .oofReply] (some 32)
  | .bytes _ =>
    labelledSize (ActionType.of type) [.deferAction] (some (length.toUInt32 - 9))
  | .bounce _ => labelledSize (ActionType.of type) [.bounce] (some 4)
  | .forwarddelegate pblock =>
    labelledSize (ActionType.of type) [.forward, .delegate]
      (plus (some 2) (recipientBlocksSize pblock))
  | .tag r =>
    labelledSize (ActionType.of type) [.tag] (plus (some 4) (taggedPropvalSize r))

def actionBlockSize : ActionBlock → Option UInt32
  | .mk length type _ _ pdata => plus (some 11) (actionDataSize type length pdata)

def actionBlocksSize : List ActionBlock → Option UInt32
  | [] => some 0
  | r :: l => plus (actionBlockSize r) (actionBlocksSize l)

end

/-! Message trees. A copy is built with the calls of the containers. -/

def proptag : TaggedPropval → UInt32
  | .mk proptag _ => proptag

/-- What `propval_dup` gives to the container for a value. -/
def valueCopy (r : TaggedPropval) : Dup (Copy × TaggedPropval) :=
  match r with
  | .mk _ .null => .ok (.null, r)
  | r =>
    match taggedPropvalDup r with
    | .ok copy => .ok (.made, copy)
    | .error .null => .ok (.failed, r)
    | .error fault => .error fault

/-- What a call of a container returns. -/
def answered : Option (Bool × Arr α) → Dup (Arr α)
  | some (true, a) => .ok a
  | some (false, _) => .error .null
  | none => .error .outside

/-- What the copy holds in the end. -/
def contents (a : Arr α) : Dup (List α) :=
  match a.elems with
  | some l => .ok l
  | none => .error .outside

/-- `tpropval_array_set_propval` where a tag stands once, otherwise `tpropval_array_append`. -/
def putPropval (once : Bool) (copy : Copy) (a : Arr TaggedPropval) (r : TaggedPropval) :
    Option (Bool × Arr TaggedPropval) :=
  if once then setPropval proptag true copy a r else tpropvalArrayAppend true copy a r

def propvalsLoop (once : Bool) : List TaggedPropval → Arr TaggedPropval → Dup (Arr TaggedPropval)
  | [], a => .ok a
  | r :: l, a => do
    let (copy, r) ← valueCopy r
    let a ← answered (putPropval once copy a r)
    propvalsLoop once l a

/-- A property list copied with one of the two calls; `tpropval_array_dup` takes the second. -/
def proplistDup (once : Bool) (l : TpropvalArray) : Dup TpropvalArray :=
  counted 16 l.length
    (propvalsLoop once l (Arr.empty Container.tpropvalArray.kind.unit) >>= contents)

/-- Each element is copied before it is appended. -/
def appendLoop (c : Container) (dup : α → Dup α) : List α → Arr α → Dup (Arr α)
  | [], a => .ok a
  | x :: l, a => do
    let x ← dup x
    let a ← answered (c.kind.append true a (some x))
    appendLoop c dup l a

def tarraySetDup (l : TarraySet) : Dup TarraySet :=
  appendLoop .tarraySet (proplistDup false) l (Arr.empty Container.tarraySet.kind.unit) >>= contents

mutual

def messageContentDup : MessageContent → Dup MessageContent
  | .mk proplist prcpts pattachments => do
    let proplist ← proplistDup true proplist
    let prcpts ← presentDup tarraySetDup prcpts
    let pattachments ← attachmentListDup pattachments
    return .mk proplist prcpts pattachments

def attachmentListDup : Option (List AttachmentContent) → Dup (Option (List AttachmentContent))
  | some pplist =>
    some <$> (attachmentsLoop pplist (Arr.empty Container.attachmentList.kind.unit) >>= contents)
  | none => .ok none

/-- The loop of `attachment_list_dup`. -/
def attachmentsLoop : List AttachmentContent → Arr AttachmentContent → Dup (Arr AttachmentContent)
  | [], a => .ok a
  | r :: l, a => do
    let r ← attachmentContentDup r
    let a ← answered (Container.attachmentList.kind.append true a (some r))
    attachmentsLoop l a

def attachmentContentDup : AttachmentContent → Dup AttachmentContent
  | .mk proplist pembedded => do
    let proplist ← proplistDup true proplist
    let pembedded ← embeddedDup pembedded
    return .mk proplist pembedded

def embeddedDup : Option MessageContent → Dup (Option MessageContent)
  | some r => some <$> messageContentDup r
  | none => .ok none

end

def proplistSize (l : TpropvalArray) : Option UInt32 := eachSize taggedPropvalSize l

def presentSize (size : α → Option UInt32) : Option α → Option UInt32
  | some a => size a
  | none => some 0

mutual

def messageContentGetSize : MessageContent → Option UInt32
  | .mk proplist prcpts pattachments =>
    plus (proplistSize proplist)
      (plus (presentSize (eachSize proplistSize) prcpts) (attachmentListSize pattachments))

def attachmentListSize : Option (List AttachmentContent) → Option UInt32
  | some pplist => attachmentsSize pplist
  | none => some 0

def attachmentsSize : List AttachmentContent → Option UInt32
  | [] => some 0
  | r :: l => plus (attachmentContentSize r) (attachmentsSize l)

def attachmentContentSize : AttachmentContent → Option UInt32
  | .mk proplist pembedded => plus (proplistSize proplist) (embeddedSize pembedded)

def embeddedSize : Option MessageContent → Option UInt32
  | some r => messageContentGetSize r
  | none => some 0

end

end SteepSystem.Messages
