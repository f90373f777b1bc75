import SteepSystem.Fastupctx.Model

/-!
The two callbacks of the stream parser, `fastupctx_object_record_marker` and
`fastupctx_object_record_propval`.
-/

namespace SteepSystem.Fastupctx

open SteepSystem.Lib.Bytes

/-- What one event gets from outside. The first `mem` of its allocations and the first `store`
of its store calls succeed, those that set the folder's properties or save something apart. -/
structure Answers where
  setProps : Bool
  pending : SaveAnswers
  mem : ℕ
  store : ℕ
  newId : ℕ
  /-- The instance made when none was there to load. -/
  madeId : ℕ
  save : SaveAnswers

abbrev Outcome := Bool × FastupctxObject × List StoreCall

namespace FastupctxObject

def refuse (pctx : FastupctxObject) : Option Outcome := some (false, pctx, [])

def push (pctx : FastupctxObject) (marker : Marker) (data : MarkerData) : FastupctxObject :=
  { pctx with markerStack := ⟨marker, data⟩ :: pctx.markerStack }

def pop (pctx : FastupctxObject) : FastupctxObject :=
  { pctx with markerStack := pctx.markerStack.tail }

end FastupctxObject

open FastupctxObject

/-! ### What is pending when a marker comes -/

/-- The properties collected for the folder uploaded to. -/
def flushRoot (ans : Answers) (pctx : FastupctxObject) : Outcome :=
  match pctx.pproplist with
  | none => (true, pctx, [])
  | some l =>
    if l.length > 0 then
      if ans.setProps then (true, { pctx with pproplist := none }, [.setFolderProperties l])
      else (false, pctx, [.setFolderProperties l])
    else (true, { pctx with pproplist := none }, [])

/-- The parent of the subfolder whose marker lies on `stack`: the field is read from whatever
marker is next. -/
def pendingParent (pctx : FastupctxObject) : List MarkerNode → Option ℕ
  | [] => some pctx.pobject
  | n :: _ => n.folderId?

/-- The switch on the last marker. -/
def settle (ans : Answers) (pctx : FastupctxObject) : Option Outcome :=
  match pctx.markerStack with
  | [] =>
    if pctx.rootElement = .folderContent then some (flushRoot ans pctx) else some (true, pctx, [])
  | n :: stack =>
    if n.marker = .startSubFld then
      match pctx.pproplist with
      | none => some (true, pctx, [])
      | some l =>
        if l.length = 0 then pctx.refuse
        else
          (pendingParent pctx stack).map fun parentId =>
            match fastupctxObjectCreateFolder ans.pending parentId l with
            | (none, l', calls) => (false, { pctx with pproplist := some l' }, calls)
            | (some folderId, _, calls) =>
              (true, { pctx with
                pproplist := none
                markerStack := ⟨n.marker, .folderId folderId⟩ :: stack }, calls)
    else if n.marker = .startTopFld then some (flushRoot ans pctx)
    else some (true, pctx, [])

/-! ### The switch on the marker -/

/-- A new property list, then the marker's node. -/
def openFolder (ans : Answers) (pctx : FastupctxObject) (marker : Marker) : Option Outcome :=
  if pctx.pproplist.isSome then pctx.refuse
  else if ans.mem = 0 then pctx.refuse
  else
    let pctx := { pctx with pproplist := some [] }
    if ans.mem = 1 then some (false, pctx, []) else some (true, pctx.push marker .unset, [])

def startTopFld (ans : Answers) (pctx : FastupctxObject) : Option Outcome :=
  if pctx.rootElement ≠ .topFolder ∨ pctx.lastMarker ≠ none then pctx.refuse
  else openFolder ans pctx .startTopFld

def startSubFld (ans : Answers) (pctx : FastupctxObject) : Option Outcome :=
  if pctx.rootElement ≠ .topFolder ∧ pctx.rootElement ≠ .folderContent then pctx.refuse
  else openFolder ans pctx .startSubFld

def endFolder (pctx : FastupctxObject) : Option Outcome :=
  if pctx.lastMarker ≠ some .startTopFld ∧ pctx.lastMarker ≠ some .startSubFld then pctx.refuse
  else
    some (true, { pctx.pop with
      bEnded := if pctx.lastMarker = some .startTopFld then true else pctx.bEnded }, [])

/-- The root elements that messages come under, and the last markers they come after. -/
def takesMessage (pctx : FastupctxObject) : Bool :=
  match pctx.rootElement with
  | .messageList => pctx.lastMarker = none
  | .topFolder => pctx.lastMarker = some .startTopFld || pctx.lastMarker = some .startSubFld
  | .folderContent => true
  | _ => false

/-- `message_content_init` returns the block it has just freed when its second allocation
fails. A recipient set or an attachment list that could not be made is shown as empty, since
nothing comes to point at it. -/
def startMessage (ans : Answers) (pctx : FastupctxObject) (marker : Marker) : Option Outcome :=
  if takesMessage pctx = false then pctx.refuse
  else if pctx.pmsgctnt.isSome then pctx.refuse
  else if ans.mem = 0 then pctx.refuse
  else if ans.mem = 1 then none
  else if ans.mem < 4 then some (false, { pctx with pmsgctnt := some ⟨[], [], []⟩ }, [])
  else
    let r := setPropval [] ⟨propTagAssociated, [if marker = .startFaiMsg then 1 else 0]⟩
      (4 < ans.mem)
    let pctx := { pctx with pmsgctnt := some ⟨r.2, [], []⟩ }
    if ans.mem < 6 then some (false, pctx, [])
    else some (true, pctx.push marker (.pelement (.message [])), [])

def endMessage (ans : Answers) (pctx : FastupctxObject) : Option Outcome :=
  match pctx.markerStack with
  | [] => pctx.refuse
  | n :: _ =>
    if n.marker ≠ .startMessage ∧ n.marker ≠ .startFaiMsg then pctx.refuse
    else
      match pctx.pmsgctnt with
      | none => pctx.refuse
      | some m =>
        if n.element? ≠ some (.message []) then pctx.refuse
        else
          (fastupctxObjectGetLastFolder pctx.pop).map fun folderId =>
            let r := fastupctxObjectWriteMessage ans.save folderId m
            (r.1, { pctx.pop with pmsgctnt := if r.1 then none else some r.2.1 }, r.2.2)

/-- The last markers that recipients and attachments come after. -/
def takesChild (pctx : FastupctxObject) : Bool :=
  match pctx.rootElement with
  | .messageContent => pctx.lastMarker = none || pctx.lastMarker = some .startEmbed
  | .attachmentContent => pctx.lastMarker = some .startEmbed
  | _ => pctx.lastMarker = some .startMessage || pctx.lastMarker = some .startFaiMsg ||
      pctx.lastMarker = some .startEmbed

/-- The message the last marker points at, with the way to it. -/
def lastMessage (pctx : FastupctxObject) : Option (MessageContent × List ℕ × MessageContent) :=
  match pctx.markerStack.head?.bind MarkerNode.element?, pctx.pmsgctnt with
  | some (.message path), some m => (m.message? path).map fun x => (m, path, x)
  | _, _ => none

def startRecip (ans : Answers) (pctx : FastupctxObject) : Option Outcome :=
  if takesChild pctx = false then pctx.refuse
  else if pctx.byInstance then
    if pctx.pproplist.isSome then pctx.refuse
    else if ans.mem = 0 then pctx.refuse
    else
      let pctx := { pctx with pproplist := some [] }
      if ans.mem = 1 then some (false, pctx, [])
      else
        (fastupctxObjectGetLastMessageInstance pctx).map fun instanceId =>
          (true, pctx.push .startRecip (.instanceId instanceId), [])
  else if ans.mem = 0 then pctx.refuse
  else
    (lastMessage pctx).bind fun (m, path, x) =>
      if x.prcpts.length ≥ 0xFF00 ∨ ans.mem = 1 then pctx.refuse
      else
        let pctx := { pctx with
          pmsgctnt := some (m.put { x with prcpts := x.prcpts ++ [[]] } path) }
        if ans.mem = 2 then some (false, pctx, [])
        else some (true, pctx.push .startRecip (.pelement (.recipient path x.prcpts.length)), [])

def endToRecip (ans : Answers) (pctx : FastupctxObject) : Option Outcome :=
  if pctx.lastMarker ≠ some .startRecip then pctx.refuse
  else if pctx.byInstance then
    match pctx.pproplist, pctx.markerStack.head?.bind MarkerNode.instanceId? with
    | some l, some instanceId =>
      if ans.store = 0 then some (false, pctx, [.updateRcpts instanceId l])
      else some (true, { pctx.pop with pproplist := none }, [.updateRcpts instanceId l])
    | _, _ => none
  else some (true, pctx.pop, [])

def newAttach (ans : Answers) (pctx : FastupctxObject) : Option Outcome :=
  if takesChild pctx = false then pctx.refuse
  else if pctx.byInstance then
    (fastupctxObjectGetLastMessageInstance pctx).map fun instanceId =>
      let calls := [.createAttachmentInstance instanceId]
      if ans.store = 0 ∨ ans.newId = 0 ∨ ans.mem = 0 then (false, pctx, calls)
      else (true, pctx.push .newAttach (.instanceId ans.newId), calls)
  else if ans.mem = 0 then pctx.refuse
  else
    (lastMessage pctx).bind fun (m, path, x) =>
      if x.pattachments.length ≥ 0x8000 ∨ ans.mem = 1 then pctx.refuse
      else
        let pctx := { pctx with
          pmsgctnt := some (m.put { x with pattachments := x.pattachments ++ [([], none)] } path) }
        if ans.mem = 2 then some (false, pctx, [])
        else
          some (true, pctx.push .newAttach (.pelement (.attachment path x.pattachments.length)), [])

/-- The end of an attachment or of an embedded message. -/
def endInstance (ans : Answers) (pctx : FastupctxObject) (marker : Marker) : Option Outcome :=
  if pctx.lastMarker ≠ some marker then pctx.refuse
  else if pctx.byInstance then
    (pctx.markerStack.head?.bind MarkerNode.instanceId?).map fun instanceId =>
      if ans.store = 0 then (false, pctx, [.flushInstance instanceId])
      else if ans.store = 1 then
        (false, pctx, [.flushInstance instanceId, .unloadInstance instanceId])
      else (true, pctx.pop, [.flushInstance instanceId, .unloadInstance instanceId])
  else some (true, pctx.pop, [])

def endAttach (ans : Answers) (pctx : FastupctxObject) : Option Outcome :=
  endInstance ans pctx .newAttach

def endEmbed (ans : Answers) (pctx : FastupctxObject) : Option Outcome :=
  endInstance ans pctx .startEmbed

/-- The instance of the embedded message, loaded and cleared, or made anew. -/
def loadEmbedded (ans : Answers) (instanceId : ℕ) : Option ℕ × List StoreCall :=
  if ans.store = 0 then (none, [.loadEmbeddedInstance false instanceId])
  else if ans.newId = 0 then
    (if ans.store = 1 ∨ ans.madeId = 0 then none else some ans.madeId,
      [.loadEmbeddedInstance false instanceId, .loadEmbeddedInstance true instanceId])
  else
    (if ans.store = 1 then none else some ans.newId,
      [.loadEmbeddedInstance false instanceId, .clearMessageInstance instanceId])

def startEmbed (ans : Answers) (pctx : FastupctxObject) : Option Outcome :=
  if pctx.lastMarker ≠ some .newAttach ∧
      ¬ (pctx.rootElement = .attachmentContent ∧ pctx.lastMarker = none) then pctx.refuse
  else if pctx.byInstance then
    (fastupctxObjectGetLastAttachmentInstance pctx).map fun instanceId =>
      match loadEmbedded ans instanceId with
      | (none, calls) => (false, pctx, calls)
      | (some tmpId, calls) =>
        if ans.mem = 0 then (false, pctx, calls)
        else (true, pctx.push .startEmbed (.instanceId tmpId), calls)
  else if ans.mem = 0 then pctx.refuse
  else if ans.mem = 1 then none
  else if ans.mem < 4 then pctx.refuse
  else
    match pctx.markerStack.head?.bind MarkerNode.element?, pctx.pmsgctnt with
    | some (.attachment path i), some m =>
      (m.message? path).bind fun x =>
        (x.pattachments[i]?).bind fun a =>
          let attachments := x.pattachments.set i (a.1, some ⟨[], [], []⟩)
          let pctx := { pctx with
            pmsgctnt := some (m.put { x with pattachments := attachments } path) }
          if ans.mem = 4 then some (false, pctx, [])
          else some (true, pctx.push .startEmbed (.pelement (.message (path ++ [i]))), [])
    | _, _ => none

/-- The switch on the marker. -/
def enter (ans : Answers) (pctx : FastupctxObject) : Marker → Option Outcome
  | .startTopFld => startTopFld ans pctx
  | .startSubFld => startSubFld ans pctx
  | .endFolder => endFolder pctx
  | .startMessage => startMessage ans pctx .startMessage
  | .startFaiMsg => startMessage ans pctx .startFaiMsg
  | .endMessage => endMessage ans pctx
  | .startRecip => startRecip ans pctx
  | .endToRecip => endToRecip ans pctx
  | .newAttach => newAttach ans pctx
  | .endAttach => endAttach ans pctx
  | .startEmbed => startEmbed ans pctx
  | .endEmbed => endEmbed ans pctx
  | .fxErrorInfo => pctx.refuse
  | .other _ => pctx.refuse

def fastupctxObjectRecordMarker (ans : Answers) (pctx : FastupctxObject) (marker : Marker) :
    Option Outcome :=
  (settle ans pctx).bind fun (b, pctx, calls) =>
    if b = false then some (false, pctx, calls)
    else (enter ans pctx marker).map fun (b, pctx, calls') => (b, pctx, calls ++ calls')

/-! ### Properties -/

def propTagMessageRecipients : ℕ := 0x0E12000D
def propTagMessageAttachments : ℕ := 0x0E13000D
def propTagContainerContents : ℕ := 0x360F000D
def propTagContainerHierarchy : ℕ := 0x360E000D
def propTagFolderAssociatedContents : ℕ := 0x3610000D
def propTagAttachDataObject : ℕ := 0x3701000D
def metaTagFxDelProp : ℕ := 0x40160003

/-- `META_TAG_DNPREFIX` and `META_TAG_ECWARNING`. -/
def passedTags : List ℕ := [0x4008001E, 0x400F0003]

/-- The meta tags of a synchronization, which an upload has no use for. -/
def refusedTags : List ℕ :=
  [0x40110102, 0x407C0003, 0x407A0003, 0x40170003, 0x40170102, 0x67960102, 0x67DA0102, 0x67D20102,
   0x67E50102, 0x40210102, 0x67930102, 0x402D0102, 0x402E0102]

/-- The recipients or the attachments of a message: emptied in the store for the message
uploaded to, and otherwise none may have come yet. -/
def delChildren (ans : Answers) (pctx : FastupctxObject) (call : ℕ → StoreCall)
    (count : MessageContent → ℕ) : Option Outcome :=
  if takesChild pctx = false then pctx.refuse
  else
    match pctx.rootElement with
    | .messageContent =>
      if pctx.lastMarker = none then
        (fastupctxObjectGetLastMessageInstance pctx).map fun instanceId =>
          (0 < ans.store, pctx, [call instanceId])
      else some (true, pctx, [])
    | .attachmentContent => some (true, pctx, [])
    | _ => (lastMessage pctx).map fun (_, _, x) => (count x = 0, pctx, [])

/-- What a folder contains, emptied for the folder uploaded to. -/
def delContents (ans : Answers) (pctx : FastupctxObject) (bNormal bFai bSub : Bool) :
    Option Outcome :=
  if pctx.rootElement ≠ .folderContent ∨
      (pctx.lastMarker ≠ some .startSubFld ∧ pctx.lastMarker ≠ none) then pctx.refuse
  else if pctx.lastMarker = none then
    some (0 < ans.store, pctx, [.emptyFolder pctx.pobject bNormal bFai bSub])
  else some (true, pctx, [])

def fastupctxObjectDelProps (ans : Answers) (pctx : FastupctxObject) (proptag : ℕ) :
    Option Outcome :=
  if proptag = propTagMessageRecipients then
    delChildren ans pctx .emptyRcpts fun x => x.prcpts.length
  else if proptag = propTagMessageAttachments then
    delChildren ans pctx .emptyAttachments fun x => x.pattachments.length
  else if proptag = propTagContainerContents then delContents ans pctx true false false
  else if proptag = propTagFolderAssociatedContents then delContents ans pctx false true false
  else if proptag = propTagContainerHierarchy then delContents ans pctx false false true
  else pctx.refuse

/-- A property for the list of the innermost folder or recipient. -/
def setOnList (ans : Answers) (pctx : FastupctxObject) (ppropval : TaggedPropval) :
    Option Outcome :=
  pctx.pproplist.map fun l =>
    let r := setPropval l ppropval (0 < ans.mem)
    (r.1, { pctx with pproplist := some r.2 }, [])

/-- A property for what the last marker points at. -/
def setOnElement (ans : Answers) (pctx : FastupctxObject) (n : MarkerNode)
    (ppropval : TaggedPropval) : Option Outcome :=
  match n.element?, pctx.pmsgctnt with
  | some e, some m =>
    (m.proplist? e).map fun l =>
      let r := setPropval l ppropval (0 < ans.mem)
      (r.1, { pctx with pmsgctnt := some (m.setProplist r.2 e) }, [])
  | _, _ => none

def setOnInstance (ans : Answers) (pctx : FastupctxObject) (instanceId : ℕ)
    (ppropval : TaggedPropval) : Outcome :=
  (0 < ans.store, pctx, [.setInstanceProperty instanceId ppropval])

/-- Objects are only taken as the data of an attachment. -/
def objectRefused (pctx : FastupctxObject) (proptag : ℕ) : Bool :=
  proptag % 0x10000 = 0x000D &&
    !((pctx.lastMarker = some .newAttach ||
      (pctx.lastMarker = none && pctx.rootElement = .attachmentContent)) &&
      proptag = propTagAttachDataObject)

/-- The switch on the last marker in `fastupctx_object_record_propval`. -/
def setInnermost (ans : Answers) (pctx : FastupctxObject) (ppropval : TaggedPropval) :
    Option Outcome :=
  match pctx.markerStack with
  | [] =>
    match pctx.rootElement with
    | .folderContent => setOnList ans pctx ppropval
    | .messageContent | .attachmentContent =>
      some (setOnInstance ans pctx pctx.pobject ppropval)
    | .messageList | .topFolder => pctx.refuse
  | n :: _ =>
    match n.marker with
    | .startTopFld | .startSubFld => setOnList ans pctx ppropval
    | .startMessage | .startFaiMsg => setOnElement ans pctx n ppropval
    | .startEmbed | .newAttach =>
      if pctx.byInstance then
        n.instanceId?.map fun instanceId => setOnInstance ans pctx instanceId ppropval
      else setOnElement ans pctx n ppropval
    | .startRecip =>
      if pctx.byInstance then setOnList ans pctx ppropval else setOnElement ans pctx n ppropval
    | _ => pctx.refuse

def fastupctxObjectRecordPropval (ans : Answers) (pctx : FastupctxObject)
    (ppropval : TaggedPropval) : Option Outcome :=
  if ppropval.proptag = metaTagFxDelProp then
    fastupctxObjectDelProps ans pctx (ofLE (ppropval.value.take 4))
  else if ppropval.proptag ∈ passedTags then some (true, pctx, [])
  else if ppropval.proptag ∈ refusedTags then pctx.refuse
  else if objectRefused pctx ppropval.proptag then pctx.refuse
  else setInnermost ans pctx ppropval

inductive Event
  | marker (marker : Marker)
  | propval (ppropval : TaggedPropval)

def exec (pctx : FastupctxObject) (e : Event × Answers) : Option Outcome :=
  match e.1 with
  | .marker marker => fastupctxObjectRecordMarker e.2 pctx marker
  | .propval ppropval => fastupctxObjectRecordPropval e.2 pctx ppropval

end SteepSystem.Fastupctx
