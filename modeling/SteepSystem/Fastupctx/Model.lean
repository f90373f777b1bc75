import SteepSystem.Lib.Bytes

/-!
The upload side of a FastTransfer as `fastupctx_object.c` keeps it: a stack of open markers, a
property list for the innermost folder or recipient, and a message under construction. A
pointer into that message is the path to what it points at, and a step returns `none` where it
would follow an absent pointer or read a field that was never set.
-/

namespace SteepSystem.Fastupctx

open SteepSystem.Lib.Bytes

inductive RootElement
  | folderContent | messageContent | attachmentContent | messageList | topFolder
  deriving DecidableEq

inductive Marker
  | startTopFld | startSubFld | endFolder | startMessage | startFaiMsg | endMessage
  | startRecip | endToRecip | newAttach | endAttach | startEmbed | endEmbed | fxErrorInfo
  | other (n : ℕ)
  deriving DecidableEq

/-! ### Property lists -/

structure TaggedPropval where
  proptag : ℕ
  value : List UInt8
  deriving DecidableEq

abbrev TpropvalArray := List TaggedPropval

def getPropval (parray : TpropvalArray) (proptag : ℕ) : Option (List UInt8) :=
  (parray.find? fun p => p.proptag = proptag).map (·.value)

def removePropval (parray : TpropvalArray) (proptag : ℕ) : TpropvalArray :=
  parray.eraseP fun p => p.proptag = proptag

def replacePropval (ppropval : TaggedPropval) : TpropvalArray → TpropvalArray
  | [] => []
  | p :: parray =>
    if p.proptag = ppropval.proptag then ppropval :: parray
    else p :: replacePropval ppropval parray

/-- `tpropval_array_set_propval`. The count is a `uint16_t`, so the list is empty again after
`2 ^ 16` properties. `mem` tells whether the copy of the value is granted. -/
def setPropval (parray : TpropvalArray) (ppropval : TaggedPropval) (mem : Bool) :
    Bool × TpropvalArray :=
  if mem = false then (false, parray)
  else if (getPropval parray ppropval.proptag).isSome then (true, replacePropval ppropval parray)
  else if parray.length + 1 = 2 ^ 16 then (true, [])
  else (true, parray ++ [ppropval])

/-! ### The message under construction -/

structure MessageContent where
  proplist : TpropvalArray
  prcpts : List TpropvalArray
  /-- The property list of each attachment, and the message embedded in it. -/
  pattachments : List (TpropvalArray × Option MessageContent)

namespace MessageContent

/-- The message reached through the attachments `path`, from the outermost. -/
def message? (m : MessageContent) : List ℕ → Option MessageContent
  | [] => some m
  | i :: path =>
    match m.pattachments[i]? with
    | some (_, some e) => e.message? path
    | _ => none

/-- `m` with the message at `path` replaced. -/
def put (m : MessageContent) (x : MessageContent) : List ℕ → MessageContent
  | [] => x
  | i :: path =>
    match m.pattachments[i]? with
    | some (l, some e) => { m with pattachments := m.pattachments.set i (l, some (e.put x path)) }
    | _ => m

end MessageContent

/-- What a marker on the stack points at. -/
inductive Element
  | message (path : List ℕ)
  | recipient (path : List ℕ) (j : ℕ)
  | attachment (path : List ℕ) (i : ℕ)
  deriving DecidableEq

namespace MessageContent

/-- The property list of an element. -/
def proplist? (m : MessageContent) : Element → Option TpropvalArray
  | .message path => (m.message? path).map (·.proplist)
  | .recipient path j => (m.message? path).bind fun x => x.prcpts[j]?
  | .attachment path i => (m.message? path).bind fun x => x.pattachments[i]?.map (·.1)

def setProplist (m : MessageContent) (l : TpropvalArray) : Element → MessageContent
  | .message path =>
    match m.message? path with
    | some x => m.put { x with proplist := l } path
    | none => m
  | .recipient path j =>
    match m.message? path with
    | some x => m.put { x with prcpts := x.prcpts.set j l } path
    | none => m
  | .attachment path i =>
    match m.message? path with
    | some x => m.put { x with pattachments := x.pattachments.modify i fun a => (l, a.2) } path
    | none => m

end MessageContent

/-! ### The upload context -/

/-- The union in a marker node: nothing is written to it when a folder marker is pushed. -/
inductive MarkerData
  | unset
  | folderId (id : ℕ)
  | instanceId (id : ℕ)
  | pelement (e : Element)
  deriving DecidableEq

structure MarkerNode where
  marker : Marker
  data : MarkerData
  deriving DecidableEq

def MarkerNode.folderId? (n : MarkerNode) : Option ℕ :=
  match n.data with
  | .folderId id => some id
  | _ => none

def MarkerNode.instanceId? (n : MarkerNode) : Option ℕ :=
  match n.data with
  | .instanceId id => some id
  | _ => none

def MarkerNode.element? (n : MarkerNode) : Option Element :=
  match n.data with
  | .pelement e => some e
  | _ => none

structure FastupctxObject where
  /-- The id of the folder, or the instance of the message or the attachment, uploaded to. -/
  pobject : ℕ
  bEnded : Bool
  rootElement : RootElement
  pproplist : Option TpropvalArray
  pmsgctnt : Option MessageContent
  /-- The innermost marker first. -/
  markerStack : List MarkerNode

def fastupctxObjectCreate (pobject : ℕ) (rootElement : RootElement) : FastupctxObject where
  pobject := pobject
  bEnded := false
  rootElement := rootElement
  pproplist := if rootElement = .folderContent then some [] else none
  pmsgctnt := none
  markerStack := []

namespace FastupctxObject

def lastMarker (pctx : FastupctxObject) : Option Marker := pctx.markerStack.head?.map (·.marker)

/-- Uploads to a message or an attachment go to instances in the store. -/
def byInstance (pctx : FastupctxObject) : Bool :=
  pctx.rootElement = .messageContent || pctx.rootElement = .attachmentContent

end FastupctxObject

/-- The field read from the last marker of a kind, or `dflt`. -/
def lastOf (marker : Marker) (field : MarkerNode → Option ℕ) (dflt : ℕ) :
    List MarkerNode → Option ℕ
  | [] => some dflt
  | n :: stack => if n.marker = marker then field n else lastOf marker field dflt stack

def fastupctxObjectGetLastFolder (pctx : FastupctxObject) : Option ℕ :=
  lastOf .startSubFld MarkerNode.folderId? pctx.pobject pctx.markerStack

def fastupctxObjectGetLastAttachmentInstance (pctx : FastupctxObject) : Option ℕ :=
  lastOf .newAttach MarkerNode.instanceId? pctx.pobject pctx.markerStack

def fastupctxObjectGetLastMessageInstance (pctx : FastupctxObject) : Option ℕ :=
  lastOf .startEmbed MarkerNode.instanceId? pctx.pobject pctx.markerStack

/-- The calls an upload makes to the store. -/
inductive StoreCall
  | setFolderProperties (pproplist : TpropvalArray)
  | createFolder (pproplist : TpropvalArray)
  | updateFolderPermission (folderId : ℕ) (pentryid : List UInt8)
  | emptyFolder (folderId : ℕ) (bNormal bFai bSub : Bool)
  | writeMessage (folderId : ℕ) (pmsgctnt : MessageContent)
  | setInstanceProperty (instanceId : ℕ) (ppropval : TaggedPropval)
  | updateRcpts (instanceId : ℕ) (pproplist : TpropvalArray)
  | emptyRcpts (instanceId : ℕ)
  | emptyAttachments (instanceId : ℕ)
  | createAttachmentInstance (instanceId : ℕ)
  | loadEmbeddedInstance (bNew : Bool) (attachmentInstanceId : ℕ)
  | clearMessageInstance (instanceId : ℕ)
  | flushInstance (instanceId : ℕ)
  | unloadInstance (instanceId : ℕ)

/-! ### Folders and messages -/

/-- What saving a folder or a message gets from outside: the first `mem` property copies
succeed, the change number, the change key of it, the predecessor list with it, and what the
store answers. -/
structure SaveAnswers where
  mem : ℕ
  changeNum : Option ℕ
  changeKey : ℕ → Option (List UInt8)
  pclAppend : Option (List UInt8) → List UInt8 → Option (List UInt8)
  /-- The id of the folder made. -/
  newFolder : Option ℕ
  /-- The address book entry given the new folder, when the logon is not its owner's. -/
  pentryid : Option (List UInt8)
  written : Bool

def propTagDisplayName : ℕ := 0x3001001F
def propTagFolderType : ℕ := 0x36010003
def propTagParentFolderId : ℕ := 0x67490014
def propTagChangeNumber : ℕ := 0x67A40014
def propTagChangeKey : ℕ := 0x65E20102
def propTagPredecessorChangeList : ℕ := 0x65E30102
def propTagAssociated : ℕ := 0x67AA000B

def folderTypeGeneric : ℕ := 1

/-- The tags a new folder's list is cleared of, in the order of the calls. -/
def folderTags : List ℕ :=
  [0x0FF40003, 0x0FF70003, 0x663B0102, 0x36170003, 0x10F6000B, 0x36020003, 0x36030003, 0x670B0003,
   0x66410003, 0x67510003, 0x0E230003, 0x39000003, 0x668F0040, 0x0FFF0102, 0x66380003, 0x66A80003,
   0x67480014, 0x36010003, 0x663A000B, 0x663E0003, 0x67090040, 0x670A0040, 0x0E080003, 0x0E080014,
   0x10160003, 0x0FFE0003, 0x0E090102, 0x0FF90102, 0x300B0102, 0x0FFB0102, 0x0FFA0102, 0x65E00102,
   0x65E10102]

/-- The tags a message's list is cleared of before it is written. -/
def messageTags : List ℕ :=
  [0x30130102, 0x0E04001F, 0x0E04001E, 0x0E03001F, 0x0E03001E, 0x0E02001F, 0x0E02001E, 0x674A0014,
   0x0E080003, 0x0E080014, 0x664A000B, 0x0E1B000B, 0x0FFF0102, 0x67480014, 0x0FFE0003, 0x0E090102,
   0x0FFA0102]

/-- The next step on a property list, when the one before succeeded. -/
def andThen (r : Bool × TpropvalArray) (f : TpropvalArray → Bool × TpropvalArray) :
    Bool × TpropvalArray :=
  if r.1 then f r.2 else r

/-- The change number, the change key and the predecessor list of a new version, the copies
after the first `used` ones. -/
def stampChange (ans : SaveAnswers) (used : ℕ) (pproplist : TpropvalArray) : Bool × TpropvalArray :=
  match ans.changeNum with
  | none => (false, pproplist)
  | some changeNum =>
    andThen (setPropval pproplist ⟨propTagChangeNumber, le 8 changeNum⟩ (used < ans.mem)) fun l =>
      match ans.changeKey changeNum with
      | none => (false, l)
      | some pbin =>
        andThen (setPropval l ⟨propTagChangeKey, pbin⟩ (used + 1 < ans.mem)) fun l =>
          match ans.pclAppend (getPropval l propTagPredecessorChangeList) pbin with
          | none => (false, l)
          | some pcl =>
            setPropval l ⟨propTagPredecessorChangeList, pcl⟩ (used + 2 < ans.mem)

/-- The list a new folder is made with, `false` where the folder is refused. -/
def folderProplist (ans : SaveAnswers) (parentId : ℕ) (pproplist : TpropvalArray) :
    Bool × TpropvalArray :=
  let l := folderTags.foldl removePropval pproplist
  if (getPropval l propTagDisplayName).isNone then (false, l)
  else
    andThen (setPropval l ⟨propTagFolderType, le 4 folderTypeGeneric⟩ (0 < ans.mem)) fun l =>
      andThen (setPropval l ⟨propTagParentFolderId, le 8 parentId⟩ (1 < ans.mem)) fun l =>
        stampChange ans 2 l

/-- The id of the new folder, what the list has become, and the calls made. -/
def fastupctxObjectCreateFolder (ans : SaveAnswers) (parentId : ℕ) (pproplist : TpropvalArray) :
    Option ℕ × TpropvalArray × List StoreCall :=
  let r := folderProplist ans parentId pproplist
  if r.1 = false then (none, r.2, [])
  else
    match ans.newFolder with
    | none | some 0 => (none, r.2, [.createFolder r.2])
    | some folderId =>
      (some folderId, r.2, .createFolder r.2 ::
        (ans.pentryid.map (StoreCall.updateFolderPermission folderId)).toList)

/-- Whether the message was written, what it has become, and the calls made. -/
def fastupctxObjectWriteMessage (ans : SaveAnswers) (folderId : ℕ) (pmsgctnt : MessageContent) :
    Bool × MessageContent × List StoreCall :=
  let r := stampChange ans 0 (messageTags.foldl removePropval pmsgctnt.proplist)
  let m := { pmsgctnt with proplist := r.2 }
  if r.1 = false then (false, m, []) else (ans.written, m, [.writeMessage folderId m])

end SteepSystem.Fastupctx
