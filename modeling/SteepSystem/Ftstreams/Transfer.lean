import SteepSystem.Fastupctx.Messages
import SteepSystem.Ftstreams.RoundTrip

/-!
Messages on their whole way: `ftstream_producer.c` writes them, the client sends the pieces that it
gets to another server, and the upload context there puts them together and stores them.
-/

namespace SteepSystem.Ftstreams

open SteepSystem.ExtBuffer SteepSystem.Lib.Bytes
open SteepSystem.Fastupctx (FastupctxObject StoreCall Event Answers Grants)

variable (x : Setup) (option : StringOption) (cpid : UInt16) (memory : PropVal → Bytes)

def startMessage : UInt32 := 0x400C0003
def endMessage : UInt32 := 0x400D0003
def startFaiMsg : UInt32 := 0x40100003
def startEmbed : UInt32 := 0x40010003
def endEmbed : UInt32 := 0x40020003
def startRecip : UInt32 := 0x40030003
def endToRecip : UInt32 := 0x40040003
def newAttach : UInt32 := 0x40000003
def endAttach : UInt32 := 0x400E0003

def propTagAssociated : UInt32 := 0x67AA000B

/-- `common_util_get_propvals` -/
def getPropvals : TpropvalArray → UInt32 → Option PropVal
  | [], _ => none
  | .mk proptag pvalue :: parray, tag =>
    if proptag = tag then some pvalue else getPropvals parray tag

/-- Whether the first byte of the value is set. -/
def isAssociated (pproplist : TpropvalArray) : Bool :=
  (getPropvals pproplist propTagAssociated).any fun pvalue => (memory pvalue).headD 0 ≠ 0

def messageMarker (pproplist : TpropvalArray) : UInt32 :=
  if isAssociated memory pproplist then startFaiMsg else startMessage

def proplistOf : MessageContent → TpropvalArray
  | .mk proplist _ _ => proplist

/-! ### Writing a message -/

namespace Producer

def writeRecipient (pstream : Producer) (prcpt : TpropvalArray) : Option Producer := do
  let pstream ← writeProplist x option cpid (pstream.writeUint32 startRecip) prcpt
  some (pstream.writeUint32 endToRecip)

mutual

/-- Nothing is deleted first: `b_delprop` is not set for a message in a list. -/
def writeMessagecontent (pstream : Producer) : MessageContent → Option Producer
  | .mk proplist prcpts pattachments => do
    let pstream ← writeProplist x option cpid pstream proplist
    let pstream ← (prcpts.getD []).foldlM (writeRecipient x option cpid) pstream
    writeAttachmentList pstream pattachments

def writeAttachmentList (pstream : Producer) : Option (List AttachmentContent) → Option Producer
  | none => some pstream
  | some pattachments => writeAttachments pstream pattachments

def writeAttachments (pstream : Producer) : List AttachmentContent → Option Producer
  | [] => some pstream
  | pattachment :: pattachments => do
    let pstream ← writeAttachment pstream pattachment
    writeAttachments pstream pattachments

def writeAttachment (pstream : Producer) : AttachmentContent → Option Producer
  | .mk proplist pembedded => do
    let pstream ← writeProplist x option cpid (pstream.writeUint32 newAttach) proplist
    let pstream ← writeEmbeddedmessage pstream pembedded
    some (pstream.writeUint32 endAttach)

def writeEmbeddedmessage (pstream : Producer) : Option MessageContent → Option Producer
  | none => some pstream
  | some pmessage => do
    let pstream ← writeMessagecontent (pstream.writeUint32 startEmbed) pmessage
    some (pstream.writeUint32 endEmbed)

end

def writeMessage (pstream : Producer) (pmessage : MessageContent) : Option Producer := do
  let pstream ← writeMessagecontent x option cpid
    (pstream.writeUint32 (messageMarker memory (proplistOf pmessage))) pmessage
  some (pstream.writeUint32 endMessage)

end Producer

/-! ### The elements of a message -/

def recipientElements (prcpt : TpropvalArray) : List Element :=
  .marker startRecip :: (prcpt.map .propval ++ [.marker endToRecip])

mutual

def contentElements : MessageContent → List Element
  | .mk proplist prcpts pattachments =>
    proplist.map .propval ++
      ((prcpts.getD []).flatMap recipientElements ++ attachmentListElements pattachments)

def attachmentListElements : Option (List AttachmentContent) → List Element
  | none => []
  | some pattachments => attachmentsElements pattachments

def attachmentsElements : List AttachmentContent → List Element
  | [] => []
  | pattachment :: pattachments =>
    attachmentElements pattachment ++ attachmentsElements pattachments

def attachmentElements : AttachmentContent → List Element
  | .mk proplist pembedded =>
    .marker newAttach :: (proplist.map .propval ++
      (embeddedElements pembedded ++ [.marker endAttach]))

def embeddedElements : Option MessageContent → List Element
  | none => []
  | some pmessage => .marker startEmbed :: (contentElements pmessage ++ [.marker endEmbed])

end

namespace Producer

variable {x option cpid memory}

lemma writeAll_append (pstream : Producer) (es es' : List Element) :
    pstream.writeAll x option cpid (es ++ es') =
      (pstream.writeAll x option cpid es).bind fun pstream =>
        pstream.writeAll x option cpid es' := List.foldlM_append

lemma writeAll_marker (pstream : Producer) (marker : UInt32) (es : List Element) :
    pstream.writeAll x option cpid (.marker marker :: es) =
      (pstream.writeUint32 marker).writeAll x option cpid es := by
  simp [writeAll, write]

lemma writeAll_proplist (pstream : Producer) (pproplist : TpropvalArray) :
    pstream.writeAll x option cpid (pproplist.map .propval) =
      writeProplist x option cpid pstream pproplist := by
  rw [writeAll, List.foldlM_map]
  rfl

lemma writeRecipient_eq (pstream : Producer) (prcpt : TpropvalArray) :
    pstream.writeRecipient x option cpid prcpt =
      pstream.writeAll x option cpid (recipientElements prcpt) := by
  rw [recipientElements, writeAll_marker, writeAll_append, writeAll_proplist]
  rfl

lemma writeRecipients_eq (pstream : Producer) (prcpts : TarraySet) :
    prcpts.foldlM (writeRecipient x option cpid) pstream =
      pstream.writeAll x option cpid (prcpts.flatMap recipientElements) := by
  induction prcpts generalizing pstream with
  | nil => rfl
  | cons prcpt prcpts ih =>
    rw [List.foldlM_cons, List.flatMap_cons, writeAll_append, writeRecipient_eq]
    exact congrArg _ (funext fun pstream => ih pstream)

mutual

lemma writeMessagecontent_eq (pstream : Producer) : ∀ m : MessageContent,
    pstream.writeMessagecontent x option cpid m =
      pstream.writeAll x option cpid (contentElements m)
  | .mk proplist prcpts pattachments => by
    rw [contentElements, writeAll_append, writeAll_proplist, writeMessagecontent]
    refine congrArg _ (funext fun pstream => ?_)
    rw [writeAll_append, ← writeRecipients_eq]
    exact congrArg _ (funext fun pstream => writeAttachmentList_eq pstream pattachments)

lemma writeAttachmentList_eq (pstream : Producer) : ∀ l : Option (List AttachmentContent),
    pstream.writeAttachmentList x option cpid l =
      pstream.writeAll x option cpid (attachmentListElements l)
  | none => by rw [writeAttachmentList, attachmentListElements]; rfl
  | some l => by
    rw [writeAttachmentList, attachmentListElements, writeAttachments_eq pstream l]

lemma writeAttachments_eq (pstream : Producer) : ∀ l : List AttachmentContent,
    pstream.writeAttachments x option cpid l =
      pstream.writeAll x option cpid (attachmentsElements l)
  | [] => by rw [writeAttachments, attachmentsElements]; rfl
  | a :: l => by
    rw [writeAttachments, attachmentsElements, writeAll_append, writeAttachment_eq pstream a]
    exact congrArg _ (funext fun pstream => writeAttachments_eq pstream l)

lemma writeAttachment_eq (pstream : Producer) : ∀ a : AttachmentContent,
    pstream.writeAttachment x option cpid a =
      pstream.writeAll x option cpid (attachmentElements a)
  | .mk proplist pembedded => by
    rw [writeAttachment, attachmentElements, writeAll_marker, writeAll_append, writeAll_proplist]
    refine congrArg _ (funext fun pstream => ?_)
    rw [writeAll_append, ← writeEmbeddedmessage_eq pstream pembedded]
    rfl

lemma writeEmbeddedmessage_eq (pstream : Producer) : ∀ m : Option MessageContent,
    pstream.writeEmbeddedmessage x option cpid m =
      pstream.writeAll x option cpid (embeddedElements m)
  | none => by rw [writeEmbeddedmessage, embeddedElements]; rfl
  | some m => by
    rw [writeEmbeddedmessage, embeddedElements, writeAll_marker, writeAll_append,
      ← writeMessagecontent_eq _ m]
    rfl

end

end Producer

/-! ### What arrives of it -/

/-- The markers that the upload context knows. -/
def markerOf (marker : UInt32) : Fastupctx.Marker :=
  if marker = 0x40090003 then .startTopFld
  else if marker = 0x400A0003 then .startSubFld
  else if marker = 0x400B0003 then .endFolder
  else if marker = startMessage then .startMessage
  else if marker = startFaiMsg then .startFaiMsg
  else if marker = endMessage then .endMessage
  else if marker = startRecip then .startRecip
  else if marker = endToRecip then .endToRecip
  else if marker = newAttach then .newAttach
  else if marker = endAttach then .endAttach
  else if marker = startEmbed then .startEmbed
  else if marker = endEmbed then .endEmbed
  else if marker = 0x40180003 then .fxErrorInfo
  else .other marker.toNat

def taggedOf : TaggedPropval → Fastupctx.TaggedPropval
  | .mk proptag pvalue => ⟨proptag.toNat, memory pvalue⟩

/-- What the callbacks of the parser are given. -/
def eventOf : Element → Event
  | .marker marker => .marker (markerOf marker)
  | .propval p => .propval (taggedOf memory p)

/-- The property that is recorded for one that is written; none for a `SVREID`. -/
def arrivedProp (p : TaggedPropval) : Option Fastupctx.TaggedPropval :=
  match (delivered x option cpid (.propval p)).map (Parser.recorded x) with
  | some (.propval p) => some (taggedOf memory p)
  | _ => none

def arrivedProps (pproplist : TpropvalArray) : Fastupctx.TpropvalArray :=
  pproplist.filterMap (arrivedProp x option cpid memory)

mutual

def arrived : MessageContent → Fastupctx.MessageContent
  | .mk proplist prcpts pattachments =>
    ⟨arrivedProps x option cpid memory proplist,
      (prcpts.getD []).map (arrivedProps x option cpid memory), arrivedList pattachments⟩

def arrivedList : Option (List AttachmentContent) →
    List (Fastupctx.TpropvalArray × Option Fastupctx.MessageContent)
  | none => []
  | some pattachments => arrivedAttachments pattachments

def arrivedAttachments : List AttachmentContent →
    List (Fastupctx.TpropvalArray × Option Fastupctx.MessageContent)
  | [] => []
  | pattachment :: pattachments => arrivedAttachment pattachment :: arrivedAttachments pattachments

def arrivedAttachment : AttachmentContent →
    Fastupctx.TpropvalArray × Option Fastupctx.MessageContent
  | .mk proplist pembedded =>
    (arrivedProps x option cpid memory proplist, arrivedEmbedded pembedded)

def arrivedEmbedded : Option MessageContent → Option Fastupctx.MessageContent
  | none => none
  | some pmessage => some (arrived pmessage)

end

/-- The events that elements come to. -/
def eventsOf (es : List Element) : List Event :=
  (es.filterMap (delivered x option cpid)).map fun e => eventOf memory (Parser.recorded x e)

variable {x option cpid memory}

lemma eventsOf_append (es es' : List Element) :
    eventsOf x option cpid memory (es ++ es') =
      eventsOf x option cpid memory es ++ eventsOf x option cpid memory es' := by
  simp [eventsOf]

lemma eventsOf_marker (marker : UInt32) (es : List Element) :
    eventsOf x option cpid memory (.marker marker :: es) =
      .marker (markerOf marker) :: eventsOf x option cpid memory es := rfl

/-- A property stays one. -/
lemma recorded_propval (p : TaggedPropval) :
    ∃ q, Parser.recorded x (.propval p) = .propval q := by
  obtain ⟨proptag, pvalue⟩ := p
  cases pvalue with
  | string pstr =>
    unfold Parser.recorded
    dsimp only
    split_ifs
    · split <;> exact ⟨_, rfl⟩
    · exact ⟨_, rfl⟩
  | _ => exact ⟨_, rfl⟩

lemma delivered_propval {p : TaggedPropval} {e : Element}
    (h : delivered x option cpid (.propval p) = some e) : ∃ q, e = .propval q := by
  obtain ⟨proptag, pvalue⟩ := p
  unfold delivered at h
  dsimp only at h
  split_ifs at h
  exact ⟨_, (Option.some.inj h).symm⟩

lemma eventsOf_proplist (pproplist : TpropvalArray) :
    eventsOf x option cpid memory (pproplist.map .propval) =
      (arrivedProps x option cpid memory pproplist).map .propval := by
  induction pproplist with
  | nil => rfl
  | cons p l ih =>
    unfold eventsOf arrivedProps at ih ⊢
    rw [List.map_cons]
    cases hp : delivered x option cpid (.propval p) with
    | none =>
      have hnone : arrivedProp x option cpid memory p = none := by rw [arrivedProp, hp]; rfl
      rw [List.filterMap_cons_none hp, List.filterMap_cons_none hnone, ih]
    | some e =>
      obtain ⟨q, rfl⟩ := delivered_propval hp
      obtain ⟨r, hr⟩ := recorded_propval (x := x) q
      have hsome : arrivedProp x option cpid memory p = some (taggedOf memory r) := by
        rw [arrivedProp, hp, Option.map_some, hr]
      rw [List.filterMap_cons_some hp, List.filterMap_cons_some hsome, List.map_cons, List.map_cons,
        ih, hr]
      rfl

lemma eventsOf_recipient (prcpt : TpropvalArray) :
    eventsOf x option cpid memory (recipientElements prcpt) =
      Fastupctx.recipientEvents (arrivedProps x option cpid memory prcpt) := by
  rw [recipientElements, eventsOf_marker, eventsOf_append, eventsOf_proplist]
  rfl

lemma eventsOf_recipients (prcpts : TarraySet) :
    eventsOf x option cpid memory (prcpts.flatMap recipientElements) =
      (prcpts.map (arrivedProps x option cpid memory)).flatMap Fastupctx.recipientEvents := by
  induction prcpts with
  | nil => rfl
  | cons prcpt prcpts ih =>
    rw [List.flatMap_cons, eventsOf_append, eventsOf_recipient, ih]
    rfl

mutual

lemma eventsOf_content : ∀ m : MessageContent,
    eventsOf x option cpid memory (contentElements m) =
      Fastupctx.contentEvents (arrived x option cpid memory m)
  | .mk proplist prcpts pattachments => by
    rw [contentElements, eventsOf_append, eventsOf_append, eventsOf_proplist, eventsOf_recipients,
      eventsOf_attachmentList pattachments, arrived, Fastupctx.contentEvents]

lemma eventsOf_attachmentList : ∀ l : Option (List AttachmentContent),
    eventsOf x option cpid memory (attachmentListElements l) =
      Fastupctx.attachmentsEvents (arrivedList x option cpid memory l)
  | none => by rw [attachmentListElements, arrivedList, Fastupctx.attachmentsEvents]; rfl
  | some l => by rw [attachmentListElements, arrivedList, eventsOf_attachments l]

lemma eventsOf_attachments : ∀ l : List AttachmentContent,
    eventsOf x option cpid memory (attachmentsElements l) =
      Fastupctx.attachmentsEvents (arrivedAttachments x option cpid memory l)
  | [] => by rw [attachmentsElements, arrivedAttachments, Fastupctx.attachmentsEvents]; rfl
  | a :: l => by
    rw [attachmentsElements, arrivedAttachments, Fastupctx.attachmentsEvents, eventsOf_append,
      eventsOf_attachment a, eventsOf_attachments l]

lemma eventsOf_attachment : ∀ a : AttachmentContent,
    eventsOf x option cpid memory (attachmentElements a) =
      Fastupctx.attachmentEvents (arrivedAttachment x option cpid memory a)
  | .mk proplist pembedded => by
    rw [attachmentElements, arrivedAttachment, Fastupctx.attachmentEvents, eventsOf_marker,
      eventsOf_append, eventsOf_append, eventsOf_proplist, eventsOf_embedded pembedded]
    rfl

lemma eventsOf_embedded : ∀ m : Option MessageContent,
    eventsOf x option cpid memory (embeddedElements m) =
      Fastupctx.embeddedEvents (arrivedEmbedded x option cpid memory m)
  | none => by rw [embeddedElements, arrivedEmbedded, Fastupctx.embeddedEvents]; rfl
  | some m => by
    rw [embeddedElements, arrivedEmbedded, Fastupctx.embeddedEvents, eventsOf_marker,
      eventsOf_append, eventsOf_content m]
    rfl

end

/-! ### The flag of an associated message -/

variable (memory) in
/-- The upload context behind the parser, which gets the `n`th answers for the `n`th element. -/
def receive (ans : ℕ → Answers) (s : FastupctxObject × ℕ × List StoreCall) (e : Element) :
    Option (FastupctxObject × ℕ × List StoreCall) :=
  match Fastupctx.exec s.1 (eventOf memory e, ans s.2.1) with
  | some (true, pctx, calls) => some (pctx, s.2.1 + 1, s.2.2 ++ calls)
  | _ => none

/-- The events with their answers. -/
def answered (ans : ℕ → Answers) : ℕ → List Event → List (Event × Answers)
  | _, [] => []
  | n, e :: es => (e, ans n) :: answered ans (n + 1) es

end SteepSystem.Ftstreams
