import SteepSystem.ExtBuffer.Trees

/-!
Message trees, pushed and pulled back: the property list of a message, its recipients, and its
attachments with the messages that are embedded in them.
-/

namespace SteepSystem.ExtBuffer

open SteepSystem.Lib.Bytes SteepSystem.Lib.Programs SteepSystem.Lib.Programs.Program

variable (x : Setup)

def TpropvalsFit (r : TpropvalArray) : Prop := ∀ v ∈ r, TaggedFits x v

def TarraySetFits (r : TarraySet) : Prop := ∀ v ∈ r, TpropvalsFit x v

mutual

def MessageFits : MessageContent → Prop
  | .mk proplist prcpts pattachments =>
    TpropvalsFit x proplist ∧ (∀ r ∈ prcpts, TarraySetFits x r) ∧ AttachmentListFits pattachments

def AttachmentListFits : Option (List AttachmentContent) → Prop
  | some pplist => AttachmentsFit pplist
  | none => True

def AttachmentsFit : List AttachmentContent → Prop
  | [] => True
  | r :: l => AttachmentFits r ∧ AttachmentsFit l

def AttachmentFits : AttachmentContent → Prop
  | .mk proplist pembedded => TpropvalsFit x proplist ∧ EmbeddedFits pembedded

def EmbeddedFits : Option MessageContent → Prop
  | some r => MessageFits r
  | none => True

end

/-! The optional parts and the list of attachments are like others. -/

lemma pushAttachments_eq (l : List AttachmentContent) :
    pushAttachments x l = pushEach (pushAttachment x) l := by
  induction l with
  | nil => rfl
  | cons r l ih => rw [pushAttachments, pushEach, ih]

lemma pushAttachmentList_eq (r : Option (List AttachmentContent)) :
    pushAttachmentList x r = pushPresent (pushSarray (pushAttachment x)) r := by
  cases r with
  | none => rfl
  | some l => rw [pushAttachmentList, pushAttachments_eq, pushPresent, pushSarray]

lemma pushEmbedded_eq (r : Option MessageContent) :
    pushEmbedded x r = pushPresent (pushMessageContent x) r := by
  cases r with
  | none => rfl
  | some m => rw [pushEmbedded, pushPresent]

lemma attachmentListFits_iff (r : Option (List AttachmentContent)) :
    AttachmentListFits x r ↔ ∀ l ∈ r, ∀ a ∈ l, AttachmentFits x a := by
  have hlist : ∀ l, AttachmentsFit x l ↔ ∀ a ∈ l, AttachmentFits x a := by
    intro l
    induction l with
    | nil => simp [AttachmentsFit]
    | cons a l ih => simp [AttachmentsFit, ih]
  cases r with
  | none => simp [AttachmentListFits]
  | some l => simp [AttachmentListFits, hlist]

lemma embeddedFits_iff (r : Option MessageContent) :
    EmbeddedFits x r ↔ ∀ m ∈ r, MessageFits x m := by
  cases r <;> simp [EmbeddedFits]

variable {x} {depth : ℕ}

lemma parses_tpropvalArray (hconv : x.iconv.Lawful) (r : TpropvalArray) (hr : sizeOf r ≤ depth) :
    Parses (pullTpropvalArray x depth) (pushTpropvalArray x r) r (TpropvalsFit x r) := by
  apply parses_sarray
  intro v hv
  have := List.sizeOf_lt_of_mem hv
  exact (readBack hconv depth).tagged v (by omega)

lemma parses_tarraySet (hconv : x.iconv.Lawful) (r : TarraySet) (hr : sizeOf r ≤ depth) :
    Parses (pullTarraySet x depth) (pushTarraySet x r) r (TarraySetFits x r) := by
  apply parses_array
  intro v hv
  have := List.sizeOf_lt_of_mem hv
  exact (parses_tpropvalArray hconv v (by omega)).allocated

/-- The byte tells whether the part is there. -/
lemma parses_present {α : Type} {p : Pull α} {push : α → Emit} {good : α → Prop} {r : Option α}
    (h : ∀ v ∈ r, Parses p (push v) v (good v)) :
    Parses (pullPresent p) (pushPresent push r) r (∀ v ∈ r, good v) := by
  unfold pullPresent
  cases r with
  | none =>
    refine Parses.congr ((parses_uint8 0).last rfl) (by simp)
  | some v =>
    refine (parses_uint8 1).then ?_
    rw [if_pos (by decide)]
    exact ((h v rfl).map (by simp)).allocated.congr (by simp)

/-! One step deeper. -/

/-- All messages up to a size are read back at a depth. -/
def MessagesReadBack (x : Setup) (depth n : ℕ) : Prop :=
  ∀ m, sizeOf m < n →
    Parses (pullMessageContent x depth) (pushMessageContent x m) m (MessageFits x m)

lemma parses_attachment (hconv : x.iconv.Lawful) (h : MessagesReadBack x depth depth)
    (r : AttachmentContent) (hr : sizeOf r ≤ depth) :
    Parses (do
      alloc
      let proplist ← pullTpropvalArray x depth
      let pembedded ← pullPresent (pullMessageContent x depth)
      pure (.mk proplist pembedded)) (pushAttachment x r) r (AttachmentFits x r) := by
  obtain ⟨proplist, pembedded⟩ := r
  rw [AttachmentContent.mk.sizeOf_spec] at hr
  have hembedded : Parses (pullPresent (pullMessageContent x depth)) (pushEmbedded x pembedded)
      pembedded (EmbeddedFits x pembedded) := by
    rw [pushEmbedded_eq, embeddedFits_iff]
    apply parses_present
    rintro m ⟨⟩
    rw [Option.some.sizeOf_spec] at hr
    exact h m (by omega)
  apply Parses.allocated
  refine (parses_tpropvalArray hconv proplist (by omega)).bind (hembedded.map (by simp)) ?_
  intro l hl
  simp only [returns_bind, returns_pure, AttachmentContent.mk.injEq] at hl
  obtain ⟨_, -, hl, -⟩ := hl
  exact hl.symm

lemma parses_attachmentList (hconv : x.iconv.Lawful) (h : MessagesReadBack x depth depth)
    (r : Option (List AttachmentContent)) (hr : sizeOf r ≤ depth) :
    Parses (pullPresent (pullAttachmentListWith x depth (pullMessageContent x depth)))
      (pushAttachmentList x r) r (AttachmentListFits x r) := by
  rw [pushAttachmentList_eq, attachmentListFits_iff]
  apply parses_present
  rintro l ⟨⟩
  rw [Option.some.sizeOf_spec] at hr
  unfold pullAttachmentListWith pushSarray
  split_ifs with hlen
  · exact Parses.of_none rfl
  have hcount : (UInt16.ofNat l.length).toNat = l.length := UInt16.toNat_ofNat_lt (by omega)
  refine (parses_uint16 _).then (Parses.allocated ?_)
  rw [hcount]
  refine (Parses.times fun a ha => ?_).congr (and_iff_right rfl)
  have := List.sizeOf_lt_of_mem ha
  exact parses_attachment hconv h a (by omega)

lemma parses_messageContent_succ (hconv : x.iconv.Lawful) (h : MessagesReadBack x depth depth)
    (m : MessageContent) (hm : sizeOf m ≤ depth) :
    Parses (pullMessageContent x (depth + 1)) (pushMessageContent x m) m (MessageFits x m) := by
  obtain ⟨proplist, prcpts, pattachments⟩ := m
  rw [MessageContent.mk.sizeOf_spec] at hm
  have hrcpts : Parses (pullPresent (pullTarraySet x depth))
      (pushPresent (pushTarraySet x) prcpts) prcpts (∀ r ∈ prcpts, TarraySetFits x r) := by
    apply parses_present
    rintro r ⟨⟩
    rw [Option.some.sizeOf_spec] at hm
    exact parses_tarraySet hconv r (by omega)
  refine (parses_tpropvalArray hconv proplist (by omega)).bind (hrcpts.bind
    ((parses_attachmentList hconv h pattachments (by omega)).map (by simp)) ?_) ?_
  · intro r hr
    simp only [returns_bind, returns_pure, MessageContent.mk.injEq] at hr
    obtain ⟨_, -, -, hr, -⟩ := hr
    exact hr.symm
  · intro l hl
    simp only [returns_bind, returns_pure, MessageContent.mk.injEq] at hl
    obtain ⟨_, -, _, -, hl, -⟩ := hl
    exact hl.symm

lemma messagesReadBack (hconv : x.iconv.Lawful) (depth : ℕ) :
    MessagesReadBack x depth depth := by
  induction depth with
  | zero =>
    intro m hm
    omega
  | succ depth ih =>
    intro m hm
    exact parses_messageContent_succ hconv ih m (by omega)

/-- **Messages that are read back.** Where the push of a message succeeds, it is undone exactly if
all of the message has been written and fits. -/
theorem messageContent_undone_iff (hconv : x.iconv.Lawful) {cap off : ℕ} (hcap : cap < 2 ^ 32)
    (hoff : off ≤ cap) (m : MessageContent)
    (hs : ((pushMessageContent x m).run cap off).status = .success) :
    Undone (pullMessageContent x) ((pushMessageContent x m).run cap off) m ↔
      Sound cap off (pushMessageContent x m) (MessageFits x m) := by
  apply undone_iff (n := sizeOf m + 1) ?_ hcap hoff hs
  intro depth hdepth
  exact messagesReadBack hconv depth m (by omega)

def tagProperty : TaggedPropval := .mk 0x668000fe (.rule [tagBlock])

/-- A message with a rule that tags, and an attachment in which an empty message is embedded. -/
def taggedMessage : MessageContent :=
  .mk [tagProperty] none (some [.mk [] (some (.mk [] (some []) none))])

theorem messageContent_undone_iff_tagged : Undone (pullMessageContent unicodeSetup)
    ((pushMessageContent unicodeSetup taggedMessage).run 64 0) taggedMessage := by
  refine (messageContent_undone_iff (x := unicodeSetup) asciiIconv_lawful (by decide) (by decide)
    taggedMessage (by decide)).mpr ⟨?_, by decide, ?_, ?_⟩
  · have hrule : (pushTaggedPropval unicodeSetup tagProperty).Whole :=
      ⟨trivial, trivial, ⟨trivial, trivial, trivial, trivial, trivial⟩, trivial⟩
    exact ⟨⟨trivial, hrule, trivial⟩, trivial, trivial, trivial, ⟨⟨trivial, trivial⟩, trivial,
      ⟨trivial, trivial⟩, ⟨trivial, trivial, trivial⟩, trivial⟩, trivial⟩
  · refine ⟨?_, by simp, ⟨by simp [TpropvalsFit], ?_⟩, trivial⟩
    · intro v hv
      rw [List.mem_singleton] at hv
      rw [hv]
      exact ⟨⟨rfl, trivial⟩, trivial⟩
    · exact ⟨by simp [TpropvalsFit], by simp [TarraySetFits], trivial⟩
  · have hrule : ∀ rest, (pushTaggedPropval unicodeSetup tagProperty).Near rest :=
      fun rest => ⟨trivial, trivial, ⟨trivial, trivial, trivial, trivial, trivial⟩, trivial⟩
    exact ⟨⟨trivial, hrule _, trivial⟩, trivial, trivial, trivial, ⟨⟨trivial, trivial⟩, trivial,
      ⟨trivial, trivial⟩, ⟨trivial, trivial, trivial⟩, trivial⟩, trivial⟩

/-- In 25 bytes there is room for all but the number in the tag of a rule, and the push of the
message succeeds. -/
theorem not_messageContent_undone : ¬ ∀ (x : Setup) (cap off : ℕ) (m : MessageContent),
    x.iconv.Lawful → x.tbllmt = false → cap < 2 ^ 32 → off ≤ cap →
    ((pushMessageContent x m).run cap off).status = .success →
    Undone (pullMessageContent x) ((pushMessageContent x m).run cap off) m := by
  intro h
  let m : MessageContent := .mk [tagProperty] none none
  have hm := h unicodeSetup 25 0 m asciiIconv_lawful rfl (by decide) (by decide) (by decide)
  have hhidden : ((pushMessageContent unicodeSetup m).run 25 0).hidden = true := by decide
  have := hm.1
  rw [hhidden] at this
  cases this

end SteepSystem.ExtBuffer
