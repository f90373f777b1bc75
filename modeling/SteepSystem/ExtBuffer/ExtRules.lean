import SteepSystem.ExtBuffer.Structures
import SteepSystem.ExtBuffer.Rows

/-!
Extended rule actions and named properties, pushed and pulled back. Their sizes are patched in with
32 bits, and that of a property name with eight.
-/

namespace SteepSystem.ExtBuffer

open SteepSystem.Lib.Bytes SteepSystem.Lib.Programs SteepSystem.Lib.Programs.Program

variable (x : Setup)

def pushFolderEntryid (r : FolderEntryid) : Emit :=
  .seq (pushUint32 r.flags) <| .seq (pushBlock r.providerUid) <| .seq (pushUint16 r.folderType) <|
    .seq (pushGuid r.databaseGuid) <| .seq (pushBlock r.globalCounter) (pushBlock r.pad)

/-- The store is announced with a size of one byte. -/
def pushExtMovecopyAction (folderEid : FolderEntryid) : Emit :=
  .seq (pushUint32 1) <| .seq (pushUint8 0) <| .seq (pushUint32 46) (pushFolderEntryid folderEid)

def pushMessageEntryid (r : MessageEntryid) : Emit :=
  .seq (pushUint32 r.flags) <| .seq (pushBlock r.providerUid) <| .seq (pushUint16 r.messageType) <|
    .seq (pushGuid r.folderDatabaseGuid) <| .seq (pushBlock r.folderGlobalCounter) <|
    .seq (pushBlock r.pad1) <| .seq (pushGuid r.messageDatabaseGuid) <|
    .seq (pushBlock r.messageGlobalCounter) (pushBlock r.pad2)

def pushExtReplyAction (r : ExtReplyAction) : Emit :=
  .seq (pushUint32 70) <| .seq (pushMessageEntryid r.messageEid) (pushGuid r.templateGuid)

def pushExtRecipientBlock : RecipientBlock → Emit
  | .mk reserved ppropval =>
    pushSome 31 ppropval.length <| .seq (pushUint8 reserved) <|
      .seq (pushUint32 (.ofNat ppropval.length)) (pushEach (pushTaggedPropval x) ppropval)

def pushExtForwarddelegateAction (pblock : List RecipientBlock) : Emit :=
  pushSome 31 pblock.length <|
    .seq (pushUint32 (.ofNat pblock.length)) (pushEach (pushExtRecipientBlock x) pblock)

/-- The data of a deferred action are as long as its length less a byte and one of two words. The
case of `ACTION_TYPE_OP_TAG` runs on into the next one, where the status is set. -/
def pushExtActionData (type : UInt8) (length : UInt32) : ExtActionData → Emit
  | .null =>
    match ActionType.of type with
    | some .delete | some .markAsRead => .nothing
    | none => .fail .badSwitch
    | some _ => .undefined
  | .movecopy folderEid =>
    match ActionType.of type with
    | some .move | some .copy => pushExtMovecopyAction folderEid
    | none => .fail .badSwitch
    | some _ => .undefined
  | .reply r =>
    match ActionType.of type with
    | some .reply | some .oofReply => pushExtReplyAction r
    | none => .fail .badSwitch
    | some _ => .undefined
  | .bytes data =>
    match ActionType.of type with
    | some .deferAction => if data.length = (length - 5).toNat then .bytes data else .undefined
    | none => .fail .badSwitch
    | some _ => .undefined
  | .bounce code =>
    match ActionType.of type with
    | some .bounce => pushUint32 code
    | none => .fail .badSwitch
    | some _ => .undefined
  | .forwarddelegate pblock =>
    match ActionType.of type with
    | some .forward | some .delegate => pushExtForwarddelegateAction x pblock
    | none => .fail .badSwitch
    | some _ => .undefined
  | .tag r =>
    match ActionType.of type with
    | some .tag => .ignore (pushTaggedPropval x r)
    | none => .fail .badSwitch
    | some _ => .undefined

def pushExtActionBlock (r : ExtActionBlock) : Emit :=
  .sized 4 <| .seq (pushUint8 r.type) <| .seq (pushUint32 r.flavor) <| .seq (pushUint32 r.flags)
    (pushExtActionData x r.type r.length r.pdata)

def pushExtRuleActions (pblock : List ExtActionBlock) : Emit :=
  pushArray (pushExtActionBlock x) pblock

/-- The size of a name is put into a byte. -/
def pushPropertyName (r : PropertyName) : Emit :=
  .seq (pushUint8 r.kind) <| .seq (pushGuid r.guid) <|
    if r.kind = 0 then
      match r.plid with
      | some lid => pushUint32 lid
      | none => .undefined
    else if r.kind = 1 then
      match r.pname with
      | some name => .sized 1 (pushWstring x name)
      | none => .undefined
    else .nothing

/-- One count for the identifiers and the names. -/
def pushNamedpropertyInformation (r : NamedpropertyInfomation) : Emit :=
  if r.ppropid.length ≠ r.ppropname.length ∨ 2 ^ 16 ≤ r.ppropid.length then .undefined
  else
    .seq (pushUint16 (.ofNat r.ppropid.length)) <| .seq (pushEach pushUint16 r.ppropid) <|
      .sized 4 (pushEach (pushPropertyName x) r.ppropname)

/-! What comes back. -/

def ExtRecipientBlockFits : RecipientBlock → Prop
  | .mk _ ppropval => ∀ r ∈ ppropval, TaggedFits x r

def ExtActionDataFits : ExtActionData → Prop
  | .forwarddelegate pblock => ∀ r ∈ pblock, ExtRecipientBlockFits x r
  | .tag r => TaggedFits x r
  | .null | .movecopy _ | .reply _ | .bytes _ | .bounce _ => True

/-- The length of the block is that of what stands behind it. -/
def ExtActionBlockFits (r : ExtActionBlock) : Prop :=
  r.length.toNat = (9 + (pushExtActionData x r.type r.length r.pdata).size) % 2 ^ 32 ∧
    ExtActionDataFits x r.pdata

/-- The size of a name fits a byte, and a pointer that goes with another kind is null. -/
def PropertyNameFits (r : PropertyName) : Prop :=
  if r.kind = 0 then r.pname = none
  else r.plid = none ∧
    if r.kind = 1 then ∀ name ∈ r.pname, WstringFits x name ∧
      2 ≤ (pushWstring x name).size ∧ (pushWstring x name).size < 2 ^ 8
    else r.pname = none

variable {x}

section

variable {α β : Type} {p : Pull α} {em : Emit} {a : α} {g : Prop}

/-- A part behind its size, in whatever form that is read. -/
lemma Parses.behind {n : ℕ} {q : Pull β} {size : ℕ → β} {k : β → Pull α}
    (hq : ∀ m, Parses q (.bytes (le n m)) (size m) True) (h : Parses (k (size em.size)) em a g) :
    Parses (q >>= k) (.sized n em) a g := by
  intro bs hbs b off hb hat t
  obtain ⟨cs, hcs, rfl⟩ := encoding_sized.mp hbs
  obtain ⟨hat, hat'⟩ := at_append.mp hat
  have hk := h cs hcs b _ hb hat'
  rw [run_then_of ((hq cs.length).run rfl hb hat), List.length_append, Emit.Near, Nat.sub_sub]
  rw [length_le] at hk ⊢
  rw [← length_encoding hcs] at hk
  rw [hk, Nat.add_assoc]

lemma parses_size8 (m : ℕ) : Parses pullUint8 (.bytes (le 1 m)) (.ofNat m) True := by
  have h := parses_fixed (f := fun bs => UInt8.ofNat (ofLE bs)) (length_le 1 m).symm
  have hm : UInt8.ofNat (ofLE (le 1 m)) = .ofNat m := by
    rw [ofLE_le]
    apply UInt8.toNat_inj.mp
    simp
  rwa [hm] at h

lemma parses_size32 (m : ℕ) : Parses pullUint32 (.bytes (le 4 m)) (.ofNat m) True := by
  have h := parses_fixed (f := fun bs => UInt32.ofNat (ofLE bs)) (length_le 4 m).symm
  have hm : UInt32.ofNat (ofLE (le 4 m)) = .ofNat m := by
    rw [ofLE_le]
    apply UInt32.toNat_inj.mp
    simp
  rwa [hm] at h

/-- A part that is as long as it is said to be, or longer. -/
lemma Parses.bounded {m : ℕ} (h : Parses p em a g) (hm : m ≤ em.size) :
    Parses (pullWithin m p) em a (g ∧ em.size = m) := by
  intro bs hbs b off hb hat t
  have hle := hat.le
  have hsize := b.size_lt
  change b.size < 2 ^ 32 at hsize
  have hp := h bs hbs b off hb hat
  rw [← length_encoding hbs] at hm ⊢
  rw [run_within, Nat.mod_eq_of_lt (by omega)]
  constructor
  · rintro ⟨u, hu, hle, rfl⟩
    obtain ⟨⟨hg, hn⟩, rfl⟩ := (hp u).mp hu
    exact ⟨⟨⟨hg, by omega⟩, hn⟩, by omega⟩
  · rintro ⟨⟨⟨hg, hlen⟩, hn⟩, rfl⟩
    exact ⟨_, (hp _).mpr ⟨⟨hg, hn⟩, rfl⟩, by omega, by omega⟩

/-- There is no room for that. -/
lemma Parses.of_large (h : 2 ^ 32 ≤ em.size) : Parses p em a g := by
  intro bs hbs b off hb hat
  have hle := hat.le
  have hsize := b.size_lt
  change b.size < 2 ^ 32 at hsize
  rw [length_encoding hbs] at hle
  omega

/-- A list behind a count of 32 bits that is not zero. -/
lemma Parses.some32 {push : α → Emit} {good : α → Prop} {l : List α}
    (h : ∀ v ∈ l, Parses p (push v) v (good v)) :
    Parses (do
      let count ← pullUint32
      pullSome p count.toNat)
      (pushSome 31 l.length (.seq (pushUint32 (.ofNat l.length)) (pushEach push l))) l
      (∀ v ∈ l, good v) := by
  unfold pushSome
  split_ifs with hlen h0
  · exact Parses.of_none rfl
  · exact Parses.of_none rfl
  · have hcount : (UInt32.ofNat l.length).toNat = l.length := UInt32.toNat_ofNat_lt (by omega)
    refine (parses_uint32 _).then ?_
    rw [hcount]
    exact (Parses.nonempty h0 h).congr (by simp)

end

instance (r : Guid) : Plain (pushGuid r) := by
  unfold pushGuid
  infer_instance

lemma parses_folderEntryid (r : FolderEntryid) :
    Parses pullFolderEntryid (pushFolderEntryid r) r True := by
  obtain ⟨a, b, c, d, e, f⟩ := r
  unfold pullFolderEntryid pushFolderEntryid
  exact (parses_uint32 _).then <| (parses_block _).then <| (parses_uint16 _).then <|
    (parses_guid _).then <| (parses_block _).then <| (parses_block _).map (by simp)

lemma parses_extMovecopyAction (r : FolderEntryid) :
    Parses pullExtMovecopyAction (pushExtMovecopyAction r) r True := by
  unfold pullExtMovecopyAction pushExtMovecopyAction
  refine (parses_uint32 1).then ?_
  rw [if_neg (by decide)]
  have hstore : Parses (pullAdvance 1) (pushUint8 0) () True := parses_advance rfl
  refine hstore.then <| (parses_uint32 46).then ?_
  rw [if_neg (by decide)]
  exact parses_folderEntryid r

lemma parses_messageEntryid (r : MessageEntryid) :
    Parses pullMessageEntryid (pushMessageEntryid r) r True := by
  obtain ⟨a, b, c, d, e, f, g, h, i⟩ := r
  unfold pullMessageEntryid pushMessageEntryid
  exact (parses_uint32 _).then <| (parses_block _).then <| (parses_uint16 _).then <|
    (parses_guid _).then <| (parses_block _).then <| (parses_block _).then <|
    (parses_guid _).then <| (parses_block _).then <| (parses_block _).map (by simp)

instance (r : MessageEntryid) : Plain (pushMessageEntryid r) := by
  unfold pushMessageEntryid
  infer_instance

lemma parses_extReplyAction (r : ExtReplyAction) :
    Parses pullExtReplyAction (pushExtReplyAction r) r True := by
  obtain ⟨a, b⟩ := r
  unfold pullExtReplyAction pushExtReplyAction
  refine (parses_uint32 70).then ?_
  rw [if_neg (by decide)]
  exact (parses_messageEntryid _).then <| (parses_guid _).map (by simp)

variable {depth n : ℕ}

lemma ReadBack.extRecipientBlock (h : ReadBack x depth n) (r : RecipientBlock) (hr : sizeOf r ≤ n) :
    Parses (pullExtRecipientBlock x depth) (pushExtRecipientBlock x r) r
      (ExtRecipientBlockFits x r) := by
  obtain ⟨reserved, ppropval⟩ := r
  rw [RecipientBlock.mk.sizeOf_spec] at hr
  have htagged : ∀ v ∈ ppropval, Parses (pullTaggedPropval x depth) (pushTaggedPropval x v) v
      (TaggedFits x v) := by
    intro v hv
    have := List.sizeOf_lt_of_mem hv
    exact h.tagged v (by omega)
  rw [pushExtRecipientBlock, ExtRecipientBlockFits]
  unfold pushSome
  split_ifs with hlen h0
  · exact Parses.of_none rfl
  · exact Parses.of_none rfl
  · have hcount : (UInt32.ofNat ppropval.length).toNat = ppropval.length :=
      UInt32.toNat_ofNat_lt (by omega)
    refine (parses_uint8 _).then <| (parses_uint32 _).then ?_
    rw [hcount]
    exact ((Parses.nonempty h0 htagged).congr (by simp)).map (by simp)

lemma ReadBack.extActionData (h : ReadBack x depth n) (type : UInt8) (length : UInt32)
    (r : ExtActionData) (hr : sizeOf r ≤ n) :
    Parses (pullExtActionData x depth type length) (pushExtActionData x type length r) r
      (ExtActionDataFits x r) := by
  unfold pushExtActionData pullExtActionData
  cases r with
  | null =>
    have hp : Parses (pure .null : Pull ExtActionData) .nothing .null True :=
      Parses.of_run fun bs hbs b off hb hat => by
        cases hbs
        rfl
    cases ActionType.of type with
    | none => exact Parses.of_none rfl
    | some k => cases k <;> first | exact hp | exact Parses.of_none rfl
  | movecopy r =>
    have hp := (parses_extMovecopyAction r).as (f := ExtActionData.movecopy) (by simp)
    cases ActionType.of type with
    | none => exact Parses.of_none rfl
    | some k => cases k <;> first | exact hp | exact Parses.of_none rfl
  | reply r =>
    have hp := (parses_extReplyAction r).as (f := ExtActionData.reply) (by simp)
    cases ActionType.of type with
    | none => exact Parses.of_none rfl
    | some k => cases k <;> first | exact hp | exact Parses.of_none rfl
  | bytes data =>
    cases ActionType.of type with
    | none => exact Parses.of_none rfl
    | some k =>
      cases k with
      | deferAction =>
        simp only
        split_ifs with hlen
        · exact (parses_bytes hlen.symm).as (by simp)
        · exact Parses.of_none rfl
      | _ => exact Parses.of_none rfl
  | bounce code =>
    have hp := (parses_uint32 code).as (f := ExtActionData.bounce) (by simp)
    cases ActionType.of type with
    | none => exact Parses.of_none rfl
    | some k => cases k <;> first | exact hp | exact Parses.of_none rfl
  | forwarddelegate pblock =>
    rw [ExtActionData.forwarddelegate.sizeOf_spec] at hr
    have hblocks : ∀ v ∈ pblock, Parses (pullExtRecipientBlock x depth)
        (pushExtRecipientBlock x v) v (ExtRecipientBlockFits x v) := by
      intro v hv
      have := List.sizeOf_lt_of_mem hv
      exact h.extRecipientBlock v (by omega)
    have hp := (Parses.some32 hblocks).as (f := ExtActionData.forwarddelegate) (by simp)
    cases ActionType.of type with
    | none => exact Parses.of_none rfl
    | some k => cases k <;> first | exact hp | exact Parses.of_none rfl
  | tag r =>
    rw [ExtActionData.tag.sizeOf_spec] at hr
    have hp := (h.tagged r (by omega)).ignored.as (f := ExtActionData.tag) (by simp)
    cases ActionType.of type with
    | none => exact Parses.of_none rfl
    | some k => cases k <;> first | exact hp | exact Parses.of_none rfl

lemma ReadBack.extActionBlock (h : ReadBack x depth n) (r : ExtActionBlock)
    (hr : sizeOf r ≤ n) :
    Parses (pullExtActionBlock x depth) (pushExtActionBlock x r) r (ExtActionBlockFits x r) := by
  obtain ⟨length, type, flavor, flags, pdata⟩ := r
  rw [ExtActionBlock.mk.sizeOf_spec] at hr
  have hdata := h.extActionData type length pdata (by omega)
  set em := Emit.seq (pushUint8 type) <| .seq (pushUint32 flavor) <| .seq (pushUint32 flags)
    (pushExtActionData x type length pdata) with hem
  have hsize : em.size = 9 + (pushExtActionData x type length pdata).size := by
    simp only [hem, Emit.size, pushUint8, pushUint32, length_le]
    omega
  have hlength : UInt32.ofNat em.size = length ↔ length.toNat = em.size % 2 ^ 32 := by
    rw [← UInt32.toNat_inj, UInt32.toNat_ofNat', eq_comm]
  refine Parses.behind parses_size32 ?_
  unfold ExtActionBlockFits
  rw [← hsize, ← hlength]
  by_cases hl : UInt32.ofNat em.size = length
  · rw [and_iff_right hl, hl]
    exact (parses_uint8 type).then <| (parses_uint32 flavor).then <|
      (parses_uint32 flags).then (hdata.map (by simp))
  · -- a block of another length is read
    intro bs hbs b off hb hat t
    refine ⟨fun hr => ?_, fun hg => absurd hg.1.1.1 hl⟩
    have hret := returns_of_run hr
    simp only [returns_bind, returns_pure, ExtActionBlock.mk.injEq] at hret
    obtain ⟨_, -, _, -, _, -, _, -, hl', -⟩ := hret
    exact absurd hl'.symm hl

/-- A deferred action is written with a length that is not its own. -/
theorem deferAction_not_fits {r : ExtActionBlock} (htype : ActionType.of r.type = some .deferAction)
    (hwhole : (pushExtActionBlock x r).Whole) : ¬ ExtActionBlockFits x r := by
  rintro ⟨hlength, -⟩
  obtain ⟨length, type, flavor, flags, pdata⟩ := r
  obtain ⟨-, -, -, hdata⟩ := hwhole
  cases pdata with
  | bytes data =>
    simp only [pushExtActionData, htype] at hlength hdata
    split_ifs at hlength hdata with hlen
    · simp only [Emit.size, hlen, UInt32.toNat_sub, UInt32.reduceToNat] at hlength
      have := length.toNat_lt
      omega
    · exact hdata
  | null | movecopy _ | reply _ | bounce _ | forwarddelegate _ | tag _ =>
    simp [pushExtActionData, htype, Emit.Whole] at hdata

lemma parses_propertyName (hconv : x.iconv.Lawful) (r : PropertyName) :
    Parses (pullPropertyName x) (pushPropertyName x r) r (PropertyNameFits x r) := by
  obtain ⟨kind, guid, plid, pname⟩ := r
  unfold pullPropertyName pushPropertyName PropertyNameFits
  refine (parses_uint8 kind).then <| (parses_guid guid).then ?_
  dsimp only
  by_cases h0 : kind = 0
  · rw [if_pos h0, if_pos h0, if_pos h0]
    apply Parses.allocated
    cases plid with
    | none => exact Parses.of_none rfl
    | some lid =>
      have hread : Parses (do
          let lid ← pullUint32
          pure (PropertyName.mk kind guid (some lid) none)) (pushUint32 lid)
          (.mk kind guid (some lid) none) True := (parses_uint32 lid).map (by simp)
      refine hread.only.congr ?_
      simp [eq_comm]
  rw [if_neg h0, if_neg h0, if_neg h0]
  by_cases h1 : kind = 1
  swap
  · rw [if_neg h1, if_neg h1, if_neg h1]
    have hread : Parses (pure (PropertyName.mk kind guid none none)) .nothing
        (.mk kind guid none none) True := by
      apply Parses.of_run
      rintro _ ⟨⟩ b off hb hat
      rfl
    refine hread.only.congr ?_
    simp [eq_comm]
  rw [if_pos h1, if_pos h1, if_pos h1]
  cases pname with
  | none => exact Parses.of_none rfl
  | some name =>
    simp only [Option.mem_def, Option.some.injEq, forall_eq']
    refine Parses.behind parses_size8 ?_
    have hsize : (UInt8.ofNat (pushWstring x name).size).toNat =
        (pushWstring x name).size % 2 ^ 8 := UInt8.toNat_ofNat'
    by_cases h2 : UInt8.ofNat (pushWstring x name).size < 2
    · rw [if_pos h2]
      have hlt : (pushWstring x name).size % 2 ^ 8 < 2 := by
        rwa [UInt8.lt_iff_toNat_lt, hsize] at h2
      intro bs hbs b off hb hat t
      refine ⟨fun hr => ?_, fun hg => ?_⟩
      · obtain ⟨e, -⟩ := returns_of_run hr
        exact e.elim
      · have := hg.1.1.2.2
        rw [Nat.mod_eq_of_lt this.2] at hlt
        omega
    rw [if_neg h2, hsize]
    have hge : 2 ≤ (pushWstring x name).size % 2 ^ 8 := by
      rw [UInt8.lt_iff_toNat_lt, hsize] at h2
      simp only [UInt8.reduceToNat] at h2
      omega
    have hread := ((parses_wstring x hconv name).bounded (Nat.mod_le _ (2 ^ 8))).map
      (f := fun name => PropertyName.mk kind guid none (some name)) (by simp)
    -- a pointer to a number is not read back
    intro bs hbs b off hb hat t
    by_cases hplid : plid = none
    · subst hplid
      rw [hread bs hbs b off hb hat t]
      have hfit : (pushWstring x name).size = (pushWstring x name).size % 2 ^ 8 ↔
          2 ≤ (pushWstring x name).size ∧ (pushWstring x name).size < 2 ^ 8 := by omega
      rw [hfit, and_iff_right rfl]
    · refine ⟨fun hr => ?_, fun hg => absurd hg.1.1.1 hplid⟩
      have hret := returns_of_run hr
      simp only [returns_bind, returns_pure, PropertyName.mk.injEq] at hret
      obtain ⟨_, -, -, -, hnone, -⟩ := hret
      exact absurd hnone hplid

/-- The count is not zero: none is written with the size of the names behind it and read without. -/
lemma parses_namedpropertyInformation (hconv : x.iconv.Lawful) (r : NamedpropertyInfomation)
    (hne : r.ppropid ≠ []) :
    Parses (pullNamedpropertyInformation x) (pushNamedpropertyInformation x r) r
      (∀ name ∈ r.ppropname, PropertyNameFits x name) := by
  obtain ⟨ppropid, ppropname⟩ := r
  unfold pullNamedpropertyInformation pushNamedpropertyInformation
  dsimp only at hne ⊢
  split_ifs with hcount
  · exact Parses.of_none rfl
  push Not at hcount
  obtain ⟨hlength, h16⟩ := hcount
  have hcount : (UInt16.ofNat ppropid.length).toNat = ppropid.length :=
    UInt16.toNat_ofNat_lt h16
  have hpos : UInt16.ofNat ppropid.length ≠ 0 := by
    intro h0
    have := congrArg UInt16.toNat h0
    rw [hcount, UInt16.toNat_zero, List.length_eq_zero_iff] at this
    exact hne this
  refine (parses_uint16 _).then ?_
  rw [if_neg hpos, hcount]
  have hids : Parses (Program.replicate pullUint16 ppropid.length) (pushEach pushUint16 ppropid)
      ppropid True := (Parses.times fun v _ => parses_uint16 v).congr (by simp)
  have hnames : Parses (Program.replicate (pullPropertyName x) ppropid.length)
      (pushEach (pushPropertyName x) ppropname) ppropname
      (∀ name ∈ ppropname, PropertyNameFits x name) :=
    (Parses.times fun v _ => parses_propertyName hconv v).congr (by simp [hlength])
  have : Plain (pushEach pushUint16 ppropid) := ⟨near_pushEach⟩
  refine Parses.allocated <| Parses.allocated <| hids.then <| Parses.behind parses_size32 ?_
  by_cases hlarge : 2 ^ 32 ≤ (pushEach (pushPropertyName x) ppropname).size
  · exact Parses.of_large hlarge
  rw [UInt32.toNat_ofNat_lt (by omega)]
  exact ((hnames.bounded le_rfl).map (by simp)).congr (and_iff_left rfl)

/-- Nothing but the count is read where it is zero, and six bytes are written. -/
lemma not_restores_namedproperty (r : NamedpropertyInfomation) (hnil : r.ppropid = []) {bs : Bytes}
    (hbs : (pushNamedpropertyInformation x r).encoding = some bs) :
    ¬ Restores (fun _ => pullNamedpropertyInformation x) bs r := by
  obtain ⟨ppropid, ppropname⟩ := r
  subst hnil
  cases ppropname with
  | cons name names => simp [pushNamedpropertyInformation] at hbs
  | nil =>
    cases hbs
    rintro ⟨enough, h⟩
    have hread := h enough le_rfl ⟨[0, 0, 0, 0, 0, 0], by decide, fun _ => true⟩ (fun _ => rfl) rfl
    have hcount : Input.run ⟨[0, 0, 0, 0, 0, 0], by decide, fun _ => true⟩
        (pullNamedpropertyInformation x) 0 = .ok (⟨[], []⟩, 2) := rfl
    rw [hcount] at hread
    cases hread

/-- A list that is empty is written, and not read. -/
lemma ReadBack.extRuleActions (h : ReadBack x depth n) (pblock : List ExtActionBlock)
    (hn : sizeOf pblock ≤ n) :
    Parses (pullExtRuleActions x depth) (pushExtRuleActions x pblock) pblock
      (pblock ≠ [] ∧ ∀ r ∈ pblock, ExtActionBlockFits x r) := by
  have hblocks : ∀ r ∈ pblock, Parses (pullExtActionBlock x depth) (pushExtActionBlock x r) r
      (ExtActionBlockFits x r) := by
    intro r hr
    have := List.sizeOf_lt_of_mem hr
    exact h.extActionBlock r (by omega)
  unfold pullExtRuleActions pushExtRuleActions pushArray
  split_ifs with h32
  · exact Parses.of_none rfl
  refine (parses_uint32 _).then ?_
  rw [UInt32.toNat_ofNat_lt (by omega)]
  by_cases h0 : pblock.length = 0
  · rw [List.length_eq_zero_iff] at h0
    subst h0
    intro bs hbs b off hb hat t
    refine ⟨fun hr => ?_, fun hg => absurd rfl hg.1.1.1⟩
    obtain ⟨e, -⟩ := returns_of_run hr
    exact e.elim
  · refine (Parses.nonempty h0 hblocks).congr ?_
    rw [and_iff_right rfl, and_iff_right (fun hnil => h0 (by rw [hnil]; rfl))]

/-! Both kinds of values. -/

inductive ExtValue
  | ruleActions (pblock : List ExtActionBlock)
  | namedproperty (r : NamedpropertyInfomation)

namespace ExtValue

variable (x)

def push : ExtValue → Emit
  | ruleActions pblock => pushExtRuleActions x pblock
  | namedproperty r => pushNamedpropertyInformation x r

/-- The pull function of the same kind undoes the push. -/
def UndoneBy (p : Pushed) : ExtValue → Prop
  | ruleActions pblock => Undone (pullExtRuleActions x) p pblock
  | namedproperty r => Undone (fun _ => pullNamedpropertyInformation x) p r

/-- Neither is empty, and all in it fits. -/
def Fits : ExtValue → Prop
  | ruleActions pblock => pblock ≠ [] ∧ ∀ r ∈ pblock, ExtActionBlockFits x r
  | namedproperty r => r.ppropid ≠ [] ∧ ∀ name ∈ r.ppropname, PropertyNameFits x name

end ExtValue

/-- **Extended rules and named properties that are read back.** Where a push succeeds, it is undone
by the pull function of the same kind exactly if all of the value has been written and fits. -/
theorem extValue_undoneBy_iff (hconv : x.iconv.Lawful) {cap off : ℕ} (hcap : cap < 2 ^ 32)
    (hoff : off ≤ cap) (r : ExtValue) (hs : ((r.push x).run cap off).status = .success) :
    r.UndoneBy x ((r.push x).run cap off) ↔ Sound cap off (r.push x) (r.Fits x) := by
  cases r with
  | ruleActions pblock =>
    apply undone_iff (n := sizeOf pblock) ?_ hcap hoff hs
    intro depth hdepth
    exact (readBack hconv depth).extRuleActions pblock hdepth
  | namedproperty r =>
    by_cases hnil : r.ppropid = []
    · refine ⟨fun h => ?_, fun h => absurd hnil h.2.2.1.1⟩
      exact absurd h.2 (not_restores_namedproperty r hnil (encoding_of_run hs h.1))
    · have hread := fun depth (_ : depth ≥ 0) => parses_namedpropertyInformation hconv r hnil
      refine (undone_iff hread hcap hoff hs).trans ?_
      have hfits : (ExtValue.namedproperty r).Fits x ↔
          ∀ name ∈ r.ppropname, PropertyNameFits x name := and_iff_right hnil
      unfold Sound
      rw [hfits]
      rfl

lemma length_noClock : ([0, 0] : List UInt8).length = 2 := rfl

lemma length_noNode : ([0, 0, 0, 0, 0, 0] : List UInt8).length = 6 := rfl

def noGuid : Guid := ⟨0, 0, 0, ⟨[0, 0], length_noClock⟩, ⟨[0, 0, 0, 0, 0, 0], length_noNode⟩⟩

/-- One property with a name of one character. -/
def namedA : ExtValue := .namedproperty ⟨[0x8000], [⟨1, noGuid, none, some (.of [0x41])⟩]⟩

theorem extValue_undoneBy_iff_name :
    namedA.UndoneBy unicodeSetup ((namedA.push unicodeSetup).run 64 0) := by
  refine (extValue_undoneBy_iff (x := unicodeSetup) asciiIconv_lawful (by decide) (by decide) namedA
    (by decide)).mpr ⟨by decide, by decide, ⟨by decide, ?_⟩, by decide⟩
  intro name hname
  obtain rfl := List.mem_singleton.mp hname
  refine ⟨rfl, fun s hs => ?_⟩
  cases hs
  exact ⟨⟨[0x41, 0], by decide, by decide, by decide, by decide⟩, by decide, by decide⟩

/-- A deferred action of length 5 has no data and is written with the length 9, so that four bytes
are read that are not there. -/
theorem not_extValue_undoneBy : ¬ ∀ (x : Setup) (cap off : ℕ) (r : ExtValue), x.iconv.Lawful →
    x.tbllmt = false → cap < 2 ^ 32 → off ≤ cap → ((r.push x).run cap off).status = .success →
    r.UndoneBy x ((r.push x).run cap off) := by
  intro h
  let r : ExtActionBlock := ⟨5, 5, 0, 0, .bytes []⟩
  have hs : (((ExtValue.ruleActions [r]).push unicodeSetup).run 64 0).status = .success := by decide
  have hdefer := h unicodeSetup 64 0 (.ruleActions [r]) asciiIconv_lawful rfl (by decide) (by decide) hs
  have hfits := (extValue_undoneBy_iff asciiIconv_lawful (by decide) (by decide) _ hs).mp hdefer
  exact absurd (hfits.2.2.1.2 r (.head _)).1 (by decide)

end SteepSystem.ExtBuffer
