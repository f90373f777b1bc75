import SteepSystem.ExtBuffer.Leaves

/-!
Property values, restrictions and rule actions, pushed and pulled back. A value comes back exactly
if everything in it fits: its strings, the counts of its restrictions, its identifiers, and the
lengths that its action blocks are said to have.
-/

namespace SteepSystem.ExtBuffer

open SteepSystem.Lib.Bytes SteepSystem.Lib.Programs SteepSystem.Lib.Programs.Program

variable (x : Setup)

/-- A string as a value of a type. -/
def TypedStringFits (type : UInt16) (s : CString) : Prop :=
  match PropvalType.of type with
  | some .wstring | some .wstringArray => WstringFits x s
  | _ => StringFits x s

/-- Without `EXT_FLAG_WCOUNT` a restriction has its count in 16 bits. -/
def CountFits (count : ℕ) : Prop := x.wcount = false → count < 2 ^ 16

def SvreidFits (r : Svreid) : Prop := ∀ pbin, r = .other pbin → pbin.length + 1 < 2 ^ 16

mutual

def PropvalFits (type : UInt16) : PropVal → Prop
  | .typed t v => PropvalFits t v
  | .string pstr => TypedStringFits x type pstr
  | .stringArray ppstr => ∀ s ∈ ppstr, TypedStringFits x type s
  | .svreid r => SvreidFits r
  | .restriction r => RestrictionFits r
  | .rule pblock => ActionBlocksFit pblock
  | .null | .short _ | .long _ | .float _ | .double _ | .byte _ | .longlong _ | .guid _
  | .binary _ | .shortArray _ | .longArray _ | .longlongArray _ | .guidArray _
  | .binaryArray _ => True

def TaggedFits : TaggedPropval → Prop
  | .mk proptag pvalue => PropvalFits proptag.toUInt16 pvalue

def TaggedsFit : List TaggedPropval → Prop
  | [] => True
  | r :: l => TaggedFits r ∧ TaggedsFit l

def RestrictionFits : Restriction → Prop
  | .and pres => CountFits x pres.length ∧ RestrictionsFit pres
  | .or pres => CountFits x pres.length ∧ RestrictionsFit pres
  | .not res => RestrictionFits res
  | .content _ _ propval => TaggedFits propval
  | .property _ _ propval => TaggedFits propval
  | .subobj _ res => RestrictionFits res
  | .comment ppropval pres => TaggedsFit ppropval ∧ PresentFits pres
  | .count _ subRes => RestrictionFits subRes
  | .propcompare _ _ _ | .bitmask _ _ _ | .size _ _ _ | .exist _ | .null => True

def PresentFits : Option Restriction → Prop
  | some res => RestrictionFits res
  | none => True

def RestrictionsFit : List Restriction → Prop
  | [] => True
  | r :: l => RestrictionFits r ∧ RestrictionsFit l

def RecipientBlockFits : RecipientBlock → Prop
  | .mk _ ppropval => TaggedsFit ppropval

def RecipientBlocksFit : List RecipientBlock → Prop
  | [] => True
  | r :: l => RecipientBlockFits r ∧ RecipientBlocksFit l

def ActionDataFits : ActionData → Prop
  | .movecopy r => MovecopyFits x r
  | .forwarddelegate pblock => RecipientBlocksFit pblock
  | .tag r => TaggedFits r
  | .null | .reply _ | .bytes _ | .bounce _ => True

/-- The length of the block is that of what stands behind it. -/
def ActionBlockFits : ActionBlock → Prop
  | .mk length type _ _ pdata =>
    length.toNat = (9 + (pushActionData x type length pdata).size) % 2 ^ 16 ∧
      ActionDataFits pdata

def ActionBlocksFit : List ActionBlock → Prop
  | [] => True
  | r :: l => ActionBlockFits r ∧ ActionBlocksFit l

end

/-! The lists of the recursive types are arrays like the others. -/

lemma pushTaggedPropvals_eq (l : List TaggedPropval) :
    pushTaggedPropvals x l = pushEach (pushTaggedPropval x) l := by
  induction l with
  | nil => rfl
  | cons r l ih => rw [pushTaggedPropvals, pushEach, ih]

lemma pushRestrictions_eq (l : List Restriction) :
    pushRestrictions x l = pushEach (pushRestriction x) l := by
  induction l with
  | nil => rfl
  | cons r l ih => rw [pushRestrictions, pushEach, ih]

lemma pushRecipientBlocks_eq (l : List RecipientBlock) :
    pushRecipientBlocks x l = pushEach (pushRecipientBlock x) l := by
  induction l with
  | nil => rfl
  | cons r l ih => rw [pushRecipientBlocks, pushEach, ih]

lemma pushActionBlocks_eq (l : List ActionBlock) :
    pushActionBlocks x l = pushEach (pushActionBlock x) l := by
  induction l with
  | nil => rfl
  | cons r l ih => rw [pushActionBlocks, pushEach, ih]

lemma taggedsFit_iff (l : List TaggedPropval) :
    TaggedsFit x l ↔ ∀ r ∈ l, TaggedFits x r := by
  induction l with
  | nil => simp [TaggedsFit]
  | cons r l ih => simp [TaggedsFit, ih]

lemma restrictionsFit_iff (l : List Restriction) :
    RestrictionsFit x l ↔ ∀ r ∈ l, RestrictionFits x r := by
  induction l with
  | nil => simp [RestrictionsFit]
  | cons r l ih => simp [RestrictionsFit, ih]

lemma recipientBlocksFit_iff (l : List RecipientBlock) :
    RecipientBlocksFit x l ↔ ∀ r ∈ l, RecipientBlockFits x r := by
  induction l with
  | nil => simp [RecipientBlocksFit]
  | cons r l ih => simp [RecipientBlocksFit, ih]

lemma actionBlocksFit_iff (l : List ActionBlock) :
    ActionBlocksFit x l ↔ ∀ r ∈ l, ActionBlockFits x r := by
  induction l with
  | nil => simp [ActionBlocksFit]
  | cons r l ih => simp [ActionBlocksFit, ih]

/-! One step deeper. -/

/-- Everything up to a size is read back at a depth. -/
structure ReadBack (depth n : ℕ) : Prop where
  propval : ∀ v type, sizeOf v < n →
    Parses (pullPropval x depth type) (pushPropval x type v) v (PropvalFits x type v)
  restriction : ∀ r, sizeOf r < n →
    Parses (pullRestriction x depth) (pushRestriction x r) r (RestrictionFits x r)

variable {x} {depth n : ℕ}

lemma ReadBack.tagged (h : ReadBack x depth n) (r : TaggedPropval) (hr : sizeOf r ≤ n) :
    Parses (pullTaggedPropvalWith (pullPropval x depth)) (pushTaggedPropval x r) r
      (TaggedFits x r) := by
  obtain ⟨proptag, pvalue⟩ := r
  rw [TaggedPropval.mk.sizeOf_spec] at hr
  exact (parses_uint32 proptag).then ((h.propval pvalue _ (by omega)).map (by simp))

/-- A list behind a count that is not zero and has been checked to fit. -/
lemma parses_some16 {α : Type} {p : Pull α} {push : α → Emit} {good : α → Prop} {l : List α}
    (h : ∀ v ∈ l, Parses p (push v) v (good v)) :
    Parses (do
      let count ← pullUint16
      pullSome p count.toNat)
      (pushSome 16 l.length (.seq (pushUint16 (.ofNat l.length)) (pushEach push l))) l
      (∀ v ∈ l, good v) := by
  unfold pushSome
  split_ifs with hlen h0
  · exact Parses.of_none rfl
  · exact Parses.of_none rfl
  · have hcount : (UInt16.ofNat l.length).toNat = l.length := UInt16.toNat_ofNat_lt (by omega)
    refine (parses_uint16 _).then ?_
    rw [hcount]
    exact (Parses.nonempty h0 h).congr (by simp)

lemma ReadBack.recipientBlock (h : ReadBack x depth n) (r : RecipientBlock)
    (hr : sizeOf r ≤ n) :
    Parses (pullRecipientBlock (pullTaggedPropvalWith (pullPropval x depth)))
      (pushRecipientBlock x r) r (RecipientBlockFits x r) := by
  obtain ⟨reserved, ppropval⟩ := r
  rw [RecipientBlock.mk.sizeOf_spec] at hr
  have htagged : ∀ v ∈ ppropval, Parses (pullTaggedPropvalWith (pullPropval x depth))
      (pushTaggedPropval x v) v (TaggedFits x v) := by
    intro v hv
    have := List.sizeOf_lt_of_mem hv
    exact h.tagged v (by omega)
  rw [pushRecipientBlock, RecipientBlockFits, taggedsFit_iff, pushTaggedPropvals_eq]
  unfold pushSome
  split_ifs with hlen h0
  · exact Parses.of_none rfl
  · exact Parses.of_none rfl
  · have hcount : (UInt16.ofNat ppropval.length).toNat = ppropval.length :=
      UInt16.toNat_ofNat_lt (by omega)
    refine (parses_uint8 _).then <| (parses_uint16 _).then ?_
    rw [hcount]
    exact ((Parses.nonempty h0 htagged).congr (by simp)).map (by simp)

lemma ReadBack.actionData (h : ReadBack x depth n) (type : UInt8) (length : UInt16)
    (r : ActionData) (hr : sizeOf r ≤ n) :
    Parses (pullActionData x (pullTaggedPropvalWith (pullPropval x depth)) type length)
      (pushActionData x type length r) r (ActionDataFits x r) := by
  unfold pushActionData pullActionData
  -- a label that does not go with the data leaves nothing to be read back
  cases r with
  | null =>
    have hp : Parses (pure .null : Pull ActionData) .nothing .null True :=
      Parses.of_run fun bs hbs b off hb hat => by
        cases hbs
        rfl
    cases ActionType.of type with
    | none => exact Parses.of_none rfl
    | some k => cases k <;> first | exact hp | exact Parses.of_none rfl
  | movecopy r =>
    have hp := (parses_movecopyAction x r).as (f := ActionData.movecopy) (by simp)
    cases ActionType.of type with
    | none => exact Parses.of_none rfl
    | some k => cases k <;> first | exact hp | exact Parses.of_none rfl
  | reply r =>
    have hp := (parses_replyAction r).as (f := ActionData.reply) (by simp)
    cases ActionType.of type with
    | none => exact Parses.of_none rfl
    | some k => cases k <;> first | exact hp | exact Parses.of_none rfl
  | bytes data =>
    cases ActionType.of type with
    | none => exact Parses.of_none rfl
    | some k =>
      cases k with
      | deferAction =>
        simp only
        split_ifs with hlen
        · exact (parses_bytes (by rw [UInt16.toNat_toUInt32, hlen])).as (by simp)
        · exact Parses.of_none rfl
      | _ => exact Parses.of_none rfl
  | bounce code =>
    have hp := (parses_uint32 code).as (f := ActionData.bounce) (by simp)
    cases ActionType.of type with
    | none => exact Parses.of_none rfl
    | some k => cases k <;> first | exact hp | exact Parses.of_none rfl
  | forwarddelegate pblock =>
    rw [ActionData.forwarddelegate.sizeOf_spec] at hr
    have hblocks : ∀ v ∈ pblock, Parses
        (pullRecipientBlock (pullTaggedPropvalWith (pullPropval x depth)))
        (pushRecipientBlock x v) v (RecipientBlockFits x v) := by
      intro v hv
      have := List.sizeOf_lt_of_mem hv
      exact h.recipientBlock v (by omega)
    have hp := (parses_some16 hblocks).as (f := ActionData.forwarddelegate) (by simp)
    rw [← pushRecipientBlocks_eq, ← recipientBlocksFit_iff] at hp
    cases ActionType.of type with
    | none => exact Parses.of_none rfl
    | some k => cases k <;> first | exact hp | exact Parses.of_none rfl
  | tag r =>
    rw [ActionData.tag.sizeOf_spec] at hr
    have hp := (h.tagged r (by omega)).ignored.as (f := ActionData.tag) (by simp)
    cases ActionType.of type with
    | none => exact Parses.of_none rfl
    | some k => cases k <;> first | exact hp | exact Parses.of_none rfl

lemma ReadBack.actionBlock (h : ReadBack x depth n) (r : ActionBlock) (hr : sizeOf r ≤ n) :
    Parses (pullActionBlock x (pullTaggedPropvalWith (pullPropval x depth)))
      (pushActionBlock x r) r (ActionBlockFits x r) := by
  obtain ⟨length, type, flavor, flags, pdata⟩ := r
  rw [ActionBlock.mk.sizeOf_spec] at hr
  have hdata := h.actionData type length pdata (by omega)
  rw [pushActionBlock]
  refine Parses.congr (@Parses.measured _ _ _ length _ (ActionDataFits x pdata) ?_ ?_) ?_
  · exact (parses_uint8 type).then <| (parses_uint32 flavor).then <|
      (parses_uint32 flags).then (hdata.map (by simp))
  · intro length' hl
    simp only [returns_bind, returns_pure, ActionBlock.mk.injEq] at hl
    obtain ⟨_, -, _, -, _, -, _, -, hl, -⟩ := hl
    exact hl.symm
  · have hsize : (Emit.seq (pushUint8 type) <| .seq (pushUint32 flavor) <| .seq (pushUint32 flags)
        (pushActionData x type length pdata)).size =
        9 + (pushActionData x type length pdata).size := by
      simp only [Emit.size, pushUint8, pushUint32, length_le]
      omega
    rw [hsize, ActionBlockFits]

/-! The restrictions and the values themselves. -/

/-- The count is read back in the bits it is written in. -/
lemma ReadBack.andOr (h : ReadBack x depth n) (pres : List Restriction) (hr : sizeOf pres ≤ n) :
    Parses (pullRestrictionAndOr x (pullRestriction x depth))
      (.seq (pushAndOrCount x pres.length) (pushRestrictions x pres)) pres
      (CountFits x pres.length ∧ RestrictionsFit x pres) := by
  have hsub : ∀ r ∈ pres,
      Parses (pullRestriction x depth) (pushRestriction x r) r (RestrictionFits x r) := by
    intro r hmem
    have := List.sizeOf_lt_of_mem hmem
    exact h.restriction r (by omega)
  rw [pushRestrictions_eq, restrictionsFit_iff]
  unfold pullRestrictionAndOr pushAndOrCount CountFits
  by_cases h32 : 2 ^ 31 ≤ pres.length
  · rw [if_pos h32]
    exact Parses.of_none rfl
  rw [if_neg h32]
  by_cases hw : x.wcount = true
  · rw [pullCount, if_pos hw, if_pos hw]
    exact (parses_count32 (by omega)).then ((Parses.elements hsub).congr (by simp [hw]))
  · rw [pullCount, if_neg hw, if_neg hw]
    refine parses_count16.then ((Parses.elements hsub).congr ?_)
    simp only [Bool.not_eq_true] at hw
    simp only [hw, forall_const, and_congr_left_iff]
    omega

lemma ReadBack.comment (h : ReadBack x depth n) (ppropval : List TaggedPropval)
    (pres : Option Restriction) (hr : sizeOf ppropval ≤ n) (hp : sizeOf pres ≤ n) :
    Parses (pullRestrictionComment (pullRestriction x depth)
        (pullTaggedPropvalWith (pullPropval x depth)))
      (pushSome 8 ppropval.length <| .seq (pushUint8 (.ofNat ppropval.length)) <|
        .seq (pushTaggedPropvals x ppropval) (pushPresentRestriction x pres))
      (.comment ppropval pres) (TaggedsFit x ppropval ∧ PresentFits x pres) := by
  have htagged : ∀ v ∈ ppropval, Parses (pullTaggedPropvalWith (pullPropval x depth))
      (pushTaggedPropval x v) v (TaggedFits x v) := by
    intro v hv
    have := List.sizeOf_lt_of_mem hv
    exact h.tagged v (by omega)
  unfold pushSome
  split_ifs with hlen h0
  · exact Parses.of_none rfl
  · exact Parses.of_none rfl
  have hcount : (UInt8.ofNat ppropval.length).toNat = ppropval.length := by
    rw [UInt8.toNat_ofNat', Nat.mod_eq_of_lt (by omega)]
  refine (parses_uint8 _).then ?_
  rw [hcount, pushTaggedPropvals_eq, taggedsFit_iff]
  refine ((Parses.nonempty h0 htagged).congr (by simp)).bind ?_ ?_
  · cases pres with
    | none => exact (parses_uint8 0).last rfl
    | some res =>
      rw [Option.some.sizeOf_spec] at hp
      refine (parses_uint8 1).then ?_
      rw [if_pos (by decide)]
      exact ((h.restriction res (by omega)).map (by simp)).allocated
  · -- both ways of ending keep the values
    intro v hv
    obtain ⟨resPresent, -, hv⟩ := returns_bind.mp hv
    split_ifs at hv
    · simp only [returns_bind, returns_pure, Restriction.comment.injEq] at hv
      obtain ⟨_, -, _, -, hv, -⟩ := hv
      exact hv.symm
    · simp only [returns_pure, Restriction.comment.injEq] at hv
      exact hv.1.symm

lemma ReadBack.restriction_succ (h : ReadBack x depth n) (r : Restriction) (hr : sizeOf r ≤ n) :
    Parses (pullRestriction x (depth + 1)) (pushRestriction x r) r (RestrictionFits x r) := by
  rw [pullRestriction]
  cases r with
  | and pres =>
    rw [Restriction.and.sizeOf_spec] at hr
    exact (parses_uint8 0x00).then ((h.andOr pres (by omega)).as (by simp))
  | or pres =>
    rw [Restriction.or.sizeOf_spec] at hr
    exact (parses_uint8 0x01).then ((h.andOr pres (by omega)).as (by simp))
  | not res =>
    rw [Restriction.not.sizeOf_spec] at hr
    exact (parses_uint8 0x02).then ((h.restriction res (by omega)).as (by simp))
  | content fuzzyLevel proptag propval =>
    rw [Restriction.content.sizeOf_spec] at hr
    exact (parses_uint8 0x03).then <| Parses.allocated <| (parses_uint32 _).then <|
      (parses_uint32 _).then ((h.tagged propval (by omega)).map (by simp))
  | property relop proptag propval =>
    rw [Restriction.property.sizeOf_spec] at hr
    exact (parses_uint8 0x04).then <| Parses.allocated <| (parses_uint8 _).then <|
      (parses_uint32 _).then ((h.tagged propval (by omega)).map (by simp))
  | propcompare relop proptag1 proptag2 =>
    exact (parses_uint8 0x05).then <| Parses.allocated <| (parses_uint8 _).then <|
      (parses_uint32 _).then ((parses_uint32 _).map (by simp))
  | bitmask bitmaskRelop proptag mask =>
    exact (parses_uint8 0x06).then <| Parses.allocated <| (parses_uint8 _).then <|
      (parses_uint32 _).then ((parses_uint32 _).map (by simp))
  | size relop proptag size =>
    exact (parses_uint8 0x07).then <| Parses.allocated <| (parses_uint8 _).then <|
      (parses_uint32 _).then ((parses_uint32 _).map (by simp))
  | exist proptag =>
    exact (parses_uint8 0x08).then <| Parses.allocated ((parses_uint32 _).map (by simp))
  | subobj subobject res =>
    rw [Restriction.subobj.sizeOf_spec] at hr
    exact (parses_uint8 0x09).then <| Parses.allocated <| (parses_uint32 _).then
      ((h.restriction res (by omega)).map (by simp))
  | comment ppropval pres =>
    rw [Restriction.comment.sizeOf_spec] at hr
    refine (parses_uint8 0x0a).then (Parses.allocated ?_)
    exact h.comment ppropval pres (by omega) (by omega)
  | count count subRes =>
    rw [Restriction.count.sizeOf_spec] at hr
    exact (parses_uint8 0x0b).then <| Parses.allocated <| (parses_uint32 _).then
      ((h.restriction subRes (by omega)).map (by simp))
  | null => exact (parses_uint8 0xff).last rfl

lemma ReadBack.propval_succ (hconv : x.iconv.Lawful) (h : ReadBack x depth n) (v : PropVal)
    (type : UInt16) (hv : sizeOf v ≤ n) :
    Parses (pullPropval x (depth + 1) type) (pushPropval x type v) v (PropvalFits x type v) := by
  rw [pullPropval]
  unfold pushPropval PropvalFits TypedStringFits
  -- a label that does not go with the value leaves nothing to be read back
  cases v with
  | null =>
    cases PropvalType.of type with
    | none => exact Parses.of_none rfl
    | some k => exact Parses.of_none rfl
  | typed t v =>
    rw [PropVal.typed.sizeOf_spec] at hv
    have hp : Parses (do alloc; pullTypedPropvalWith (pullPropval x depth))
        (.seq (pushUint16 t) (pushPropval x t v)) (.typed t v) (PropvalFits x t v) :=
      Parses.allocated ((parses_uint16 t).then ((h.propval v t (by omega)).map (by simp)))
    cases PropvalType.of type with
    | none => exact Parses.of_none rfl
    | some k => cases k <;> first | exact hp | exact Parses.of_none rfl
  | short v =>
    have hp := (parses_uint16 v).as (f := PropVal.short) (by simp)
    cases PropvalType.of type with
    | none => exact Parses.of_none rfl
    | some k => cases k <;> first | exact hp | exact Parses.of_none rfl
  | long v =>
    have hp := (parses_uint32 v).as (f := PropVal.long) (by simp)
    cases PropvalType.of type with
    | none => exact Parses.of_none rfl
    | some k => cases k <;> first | exact hp | exact Parses.of_none rfl
  | float bits =>
    have hp := (parses_uint32 bits).as (f := PropVal.float) (by simp)
    cases PropvalType.of type with
    | none => exact Parses.of_none rfl
    | some k => cases k <;> first | exact hp | exact Parses.of_none rfl
  | double bits =>
    have hp := (parses_uint64 bits).as (f := PropVal.double) (by simp)
    cases PropvalType.of type with
    | none => exact Parses.of_none rfl
    | some k => cases k <;> first | exact hp | exact Parses.of_none rfl
  | byte v =>
    have hp := (parses_uint8 v).as (f := PropVal.byte) (by simp)
    cases PropvalType.of type with
    | none => exact Parses.of_none rfl
    | some k => cases k <;> first | exact hp | exact Parses.of_none rfl
  | longlong v =>
    have hp := (parses_uint64 v).as (f := PropVal.longlong) (by simp)
    cases PropvalType.of type with
    | none => exact Parses.of_none rfl
    | some k => cases k <;> first | exact hp | exact Parses.of_none rfl
  | string pstr =>
    have hp := (parses_string x pstr).map (f := PropVal.string) (by simp)
    have hw := (parses_wstring x hconv pstr).map (f := PropVal.string) (by simp)
    cases PropvalType.of type with
    | none => exact Parses.of_none rfl
    | some k => cases k <;> first | exact hp | exact hw | exact Parses.of_none rfl
  | guid r =>
    have hp := (parses_guid r).as (f := PropVal.guid) (by simp)
    cases PropvalType.of type with
    | none => exact Parses.of_none rfl
    | some k => cases k <;> first | exact hp | exact Parses.of_none rfl
  | svreid r =>
    have hp := (parses_svreid r).as (f := PropVal.svreid) (by simp)
    cases PropvalType.of type with
    | none => exact Parses.of_none rfl
    | some k => cases k <;> first | exact hp | exact Parses.of_none rfl
  | restriction r =>
    rw [PropVal.restriction.sizeOf_spec] at hv
    have hp := (h.restriction r (by omega)).as (f := PropVal.restriction) (by simp)
    cases PropvalType.of type with
    | none => exact Parses.of_none rfl
    | some k => cases k <;> first | exact hp | exact Parses.of_none rfl
  | rule pblock =>
    rw [PropVal.rule.sizeOf_spec] at hv
    have hblocks : ∀ r ∈ pblock, Parses
        (pullActionBlock x (pullTaggedPropvalWith (pullPropval x depth)))
        (pushActionBlock x r) r (ActionBlockFits x r) := by
      intro r hr
      have := List.sizeOf_lt_of_mem hr
      exact h.actionBlock r (by omega)
    have hp := (parses_some16 hblocks).as (f := PropVal.rule) (by simp)
    rw [← pushActionBlocks_eq, ← actionBlocksFit_iff] at hp
    cases PropvalType.of type with
    | none => exact Parses.of_none rfl
    | some k => cases k <;> first | exact hp | exact Parses.of_none rfl
  | binary pb =>
    have hp := (parses_binary x pb).as (f := PropVal.binary) (by simp)
    cases PropvalType.of type with
    | none => exact Parses.of_none rfl
    | some k => cases k <;> first | exact hp | exact Parses.of_none rfl
  | shortArray ps =>
    have hp := (parses_plain_array (l := ps) parses_uint16).as (f := PropVal.shortArray) (by simp)
    cases PropvalType.of type with
    | none => exact Parses.of_none rfl
    | some k => cases k <;> first | exact hp | exact Parses.of_none rfl
  | longArray pl =>
    have hp := (parses_plain_array (l := pl) parses_uint32).as (f := PropVal.longArray) (by simp)
    cases PropvalType.of type with
    | none => exact Parses.of_none rfl
    | some k => cases k <;> first | exact hp | exact Parses.of_none rfl
  | longlongArray pll =>
    have hp := (parses_plain_array (l := pll) parses_uint64).as (f := PropVal.longlongArray)
      (by simp)
    cases PropvalType.of type with
    | none => exact Parses.of_none rfl
    | some k => cases k <;> first | exact hp | exact Parses.of_none rfl
  | stringArray ppstr =>
    have hp := (parses_array (l := ppstr) fun s _ => parses_string x s).as
      (f := PropVal.stringArray) (by simp)
    have hw := (parses_array (l := ppstr) fun s _ => parses_wstring x hconv s).as
      (f := PropVal.stringArray) (by simp)
    cases PropvalType.of type with
    | none => exact Parses.of_none rfl
    | some k => cases k <;> first | exact hp | exact hw | exact Parses.of_none rfl
  | guidArray pguid =>
    have hp := (parses_plain_array (l := pguid) parses_guid).as (f := PropVal.guidArray) (by simp)
    cases PropvalType.of type with
    | none => exact Parses.of_none rfl
    | some k => cases k <;> first | exact hp | exact Parses.of_none rfl
  | binaryArray pbin =>
    have hp := (parses_plain_array (l := pbin) (parses_binary x)).as (f := PropVal.binaryArray)
      (by simp)
    cases PropvalType.of type with
    | none => exact Parses.of_none rfl
    | some k => cases k <;> first | exact hp | exact Parses.of_none rfl

/-- **Reading back.** At a depth beyond its size, every value and every restriction is read back
if it fits, and is not if it does not. -/
theorem readBack (hconv : x.iconv.Lawful) (depth : ℕ) : ReadBack x depth depth := by
  induction depth with
  | zero => exact ⟨fun v type hv => by omega, fun r hr => by omega⟩
  | succ depth ih =>
    exact ⟨fun v type hv => ih.propval_succ hconv v type (by omega),
      fun r hr => ih.restriction_succ r (by omega)⟩

end SteepSystem.ExtBuffer
