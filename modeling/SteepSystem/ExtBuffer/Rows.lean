import SteepSystem.ExtBuffer.Trees

/-!
Property rows and recipient rows, pushed and pulled back. The push functions go by the pointers
of a row and the pull functions by its flags; a column without a type and a row of 65536 bytes are
where they differ for rows whose flags and pointers agree.
-/

namespace SteepSystem.ExtBuffer

open SteepSystem.Lib.Bytes SteepSystem.Lib.Programs SteepSystem.Lib.Programs.Program

variable (x : Setup)

/-- What is pushed in a column is what would be pulled there: the value for an available one, and
in a column without a type nothing but a `TYPED_PROPVAL`. -/
def FlaggedFits (type : UInt16) (r : FlaggedPropval) : Prop :=
  if type = 0 then
    if r.flag = 1 then r.pvalue = .typed 0 .null
    else r.flag ≠ 0xA ∧ PropvalFits x 0 r.pvalue
  else if r.flag = 0 then PropvalFits x type r.pvalue
  else r.flag = 1 → r.pvalue = .null

def CellFits (proptag : UInt32) : RowCell → Prop
  | .value v => PropvalFits x proptag.toUInt16 v
  | .flagged r => FlaggedFits x proptag.toUInt16 r

def PropertyRowFits (pcolumns : List UInt32) (r : PropertyRow) : Prop :=
  List.Forall₂ (CellFits x) pcolumns r.pppropval

def NameFits (unicode : Bool) (s : CString) : Prop :=
  if unicode then WstringFits x s else StringFits x s

/-- A field is there if the flags say so, and can be read back. -/
def FieldFits {α : Type} (c : Prop) (good : α → Prop) (a : Option α) : Prop :=
  (a.isSome ↔ c) ∧ ∀ v ∈ a, good v

def RecipientRowFits (pproptags : List UInt32) (r : RecipientRow) : Prop :=
  let type := r.flags &&& 0x0007
  let nameFits := NameFits x (r.flags &&& 0x0200 ≠ 0)
  FieldFits (type = 1) (fun _ => True) r.pprefixUsed ∧
    FieldFits (type = 1) (fun _ => True) r.pdisplayType ∧
    FieldFits (type = 1) (StringFits x) r.px500dn ∧
    FieldFits (type = 6 ∨ type = 7) (fun _ => True) r.pentryId ∧
    FieldFits (type = 6 ∨ type = 7) (fun _ => True) r.psearchKey ∧
    FieldFits (type = 0 ∧ r.flags &&& 0x8000 ≠ 0) (StringFits x) r.paddressType ∧
    FieldFits (r.flags &&& 0x0008 ≠ 0) nameFits r.pmailAddress ∧
    FieldFits (r.flags &&& 0x0010 ≠ 0) nameFits r.pdisplayName ∧
    FieldFits (r.flags &&& 0x0400 ≠ 0) nameFits r.psimpleName ∧
    FieldFits (r.flags &&& 0x0020 ≠ 0) nameFits r.ptransmittableName ∧
    PropertyRowFits x (pproptags.take r.count.toNat) r.properties

variable {x}

section

variable {α β : Type} {p : Pull α} {push : α → Emit} {good : α → Prop}

instance (push : α → Emit) : Plain (pushPointed push none) := ⟨fun _ => trivial⟩

instance (push : α → β → Emit) : Plain (pushCells push [] []) := ⟨fun _ => trivial⟩

lemma whole_pushEach {l : List α} (h : ∀ v ∈ l, (push v).Whole) :
    (pushEach push l).Whole := by
  induction l with
  | nil => trivial
  | cons v l ih => exact ⟨h v (.head l), ih fun w hw => h w (.tail v hw)⟩

lemma near_pushEach {l : List α} [h : ∀ v, Plain (push v)] (rest : ℕ) :
    (pushEach push l).Near rest := by
  induction l generalizing rest with
  | nil => trivial
  | cons v l ih => exact ⟨(h v).near rest, ih _⟩

lemma parses_if {c : Prop} [Decidable c] {a : Option α}
    (h : ∀ v ∈ a, Parses p (push v) v (good v)) :
    Parses (pullIf c p) (pushPointed push a) a (FieldFits c good a) := by
  unfold pullIf FieldFits
  cases a with
  | none =>
    split_ifs with hc
    · intro bs hbs b off hb hat t
      refine ⟨fun hr => ?_, fun hg => by simp [hc] at hg⟩
      obtain ⟨v, -, hv⟩ := returns_bind.mp (returns_of_run hr)
      cases hv
    · refine Parses.congr (Parses.of_run ?_) (by simp [hc])
      rintro _ ⟨⟩ b off hb hat
      rfl
  | some v =>
    split_ifs with hc
    · exact ((h v rfl).map (f := some) (by simp)).congr (by simp [hc])
    · intro bs hbs b off hb hat t
      refine ⟨fun hr => ?_, fun hg => by simp [hc] at hg⟩
      cases returns_of_run hr

/-- A field that the whole has kept comes first. -/
lemma Parses.field {c : Prop} [Decidable c] {a : Option α} {k : Option α → Pull β} {e : Emit}
    {r : β} {g : Prop} (h : ∀ v ∈ a, Parses p (push v) v (good v))
    (hdet : ∀ a', Returns (k a') r → a' = a) (h' : Parses (k a) e r g) :
    Parses (pullIf c p >>= k) (.seq (pushPointed push a) e) r (FieldFits c good a ∧ g) :=
  (parses_if h).bind h' hdet

/-- A program for each column, and a cell for each. -/
lemma parses_cells {f : α → Pull β} {push : α → β → Emit} {good : α → β → Prop}
    {columns : List α} {l : List β}
    (h : ∀ c, ∀ v ∈ l, Parses (f c) (push c v) v (good c v)) :
    Parses (forEach f columns) (pushCells push columns l) l (List.Forall₂ good columns l) := by
  induction columns generalizing l with
  | nil =>
    cases l with
    | nil =>
      refine Parses.congr (Parses.of_run ?_) (by simp)
      rintro _ ⟨⟩ b off hb hat
      rfl
    | cons v l => exact Parses.of_none rfl
  | cons c columns ih =>
    cases l with
    | nil => exact Parses.of_none rfl
    | cons v l =>
      have htail := (ih fun c' v' hv' => h c' v' (.tail v hv')).map (f := (v :: ·)) (by simp)
      refine Parses.congr (Parses.bind (h c v (.head l)) htail ?_) (by simp)
      intro v' hv'
      obtain ⟨m, -, hm⟩ := returns_bind.mp hv'
      rw [returns_pure, List.cons.injEq] at hm
      exact hm.1.symm

end

variable {depth n : ℕ}

/-- What follows the type, where there is one. -/
lemma ReadBack.flaggedValue (h : ReadBack x depth n) (r : FlaggedPropval) (type : UInt16)
    {pvalue : PropVal} (hn : sizeOf pvalue < n) {f : PropVal → PropVal}
    (hf : ∀ v, f pvalue = f v ↔ pvalue = v) :
    Parses (do
      let flag ← pullUint8
      let v ← pullFlaggedPropval.pullFlaggedValue x depth flag type
      pure (FlaggedPropval.mk flag (f v))) (pushFlaggedPropval.pushFlaggedValue x r type pvalue)
      (FlaggedPropval.mk r.flag (f pvalue)) (if r.flag = 0 then PropvalFits x type pvalue
        else r.flag = 1 → pvalue = .null) := by
  unfold pushFlaggedPropval.pushFlaggedValue
  refine (parses_uint8 _).then ?_
  unfold pullFlaggedPropval.pullFlaggedValue
  by_cases h0 : r.flag = 0
  · simp only [if_pos h0]
    exact (h.propval pvalue type hn).map fun v hv => ((hf v).mp (by simpa using hv)).symm
  simp only [if_neg h0]
  by_cases h1 : r.flag = 1
  · simp only [if_pos h1]
    -- nothing is written, and nothing but a null pointer is read
    have hnull : Parses (do
        let v ← (pure .null : Pull PropVal)
        pure (FlaggedPropval.mk r.flag (f v))) .nothing (FlaggedPropval.mk r.flag (f .null)) True := by
      apply Parses.of_run
      rintro _ ⟨⟩ b off hb hat
      rfl
    refine hnull.only.congr ?_
    simp only [h1, FlaggedPropval.mk.injEq, true_and, forall_const]
    rw [eq_comm, hf]
  · simp only [if_neg h1]
    by_cases ha : r.flag = 0xA
    · simp only [if_pos ha]
      cases pvalue with
      | long v =>
        have hp := ((parses_uint32 v).as (f := PropVal.long) (by simp)).map
          (f := fun v => FlaggedPropval.mk r.flag (f v)) fun v hv => ((hf v).mp (by simpa using hv)).symm
        exact hp.congr (by simp [h1])
      | _ => exact Parses.of_none rfl
    · simp only [if_neg ha]
      exact Parses.of_none rfl

/-- In a column without a type only an available value is read back as it was, and a value that
is not there if it has the form in which it is read. -/
lemma ReadBack.flaggedPropval (h : ReadBack x depth n) {type : UInt16} {r : FlaggedPropval}
    (hn : sizeOf r.pvalue < n) (hpos : 1 < n) :
    Parses (pullFlaggedPropval x depth type) (pushFlaggedPropval x type r) r
      (FlaggedFits x type r) := by
  unfold pullFlaggedPropval pushFlaggedPropval FlaggedFits
  by_cases htype : type = 0
  swap
  · simp only [if_neg htype]
    exact h.flaggedValue r type (f := id) hn fun v => Iff.rfl
  simp only [if_pos htype]
  obtain ⟨flag, pvalue⟩ := r
  by_cases h1 : flag = 1
  · subst h1
    have hnull : sizeOf PropVal.null < n := by simpa using hpos
    have hvalue := (h.flaggedValue ⟨1, pvalue⟩ 0 hnull (f := .typed 0) (by simp)).congr
      (by simp : _ ↔ True)
    have : Plain (pushFlaggedPropval.pushFlaggedValue x ⟨1, pvalue⟩ 0 pvalue) :=
      ⟨fun _ => ⟨trivial, trivial⟩⟩
    refine Parses.congr ((parses_uint16 0).then (Parses.allocated hvalue)).only ?_
    simp [eq_comm]
  simp only [if_neg h1]
  by_cases ha : flag = 0xA
  · subst ha
    cases pvalue with
    | long v =>
      have hvalue := (h.flaggedValue ⟨0xA, .long v⟩ 0x000A hn (f := .typed 0x000A)
        (by simp)).congr (by simp : _ ↔ True)
      have : Plain (pushFlaggedPropval.pushFlaggedValue x ⟨0xA, .long v⟩ 0x000A (.long v)) :=
        ⟨fun _ => ⟨trivial, trivial⟩⟩
      refine Parses.congr ((parses_uint16 0x000A).then (Parses.allocated hvalue)).only ?_
      simp
    | _ => exact Parses.of_none rfl
  simp only [if_neg ha]
  cases pvalue with
  | typed t v =>
    rw [PropVal.typed.sizeOf_spec] at hn
    by_cases h0 : flag = 0
    · refine Parses.congr ((parses_uint16 t).then (Parses.allocated (h.flaggedValue
        ⟨flag, .typed t v⟩ t (f := .typed t) (by omega) (by simp)))) ?_
      simp [h0, PropvalFits]
    · apply Parses.of_none
      simp [pushFlaggedPropval.pushFlaggedValue, h0, h1, ha, Emit.encoding]
  | _ => exact Parses.of_none rfl

lemma ReadBack.propertyRow (h : ReadBack x depth n) (pcolumns : List UInt32) (r : PropertyRow)
    (hn : sizeOf r ≤ n) :
    Parses (pullPropertyRow x depth pcolumns) (pushPropertyRow x pcolumns r) r
      (PropertyRowFits x pcolumns r) := by
  obtain ⟨flag, pppropval⟩ := r
  rw [PropertyRow.mk.sizeOf_spec] at hn
  unfold pullPropertyRow pushPropertyRow PropertyRowFits
  refine (parses_uint8 flag).then (Parses.allocated ?_)
  by_cases h0 : flag = 0
  · simp only [if_pos h0]
    refine (parses_cells fun proptag cell hcell => ?_).map (by simp)
    have := List.sizeOf_lt_of_mem hcell
    cases cell with
    | value v =>
      rw [RowCell.value.sizeOf_spec] at this
      exact (h.propval v _ (by omega)).map (by simp)
    | flagged r => exact Parses.of_none rfl
  simp only [if_neg h0]
  by_cases h1 : flag = 1
  · simp only [if_pos h1]
    refine (parses_cells fun proptag cell hcell => Parses.allocated ?_).map (by simp)
    have := List.sizeOf_lt_of_mem hcell
    cases cell with
    | value v => exact Parses.of_none rfl
    | flagged r =>
      rw [RowCell.flagged.sizeOf_spec] at this
      have hvalue : sizeOf r = 1 + sizeOf r.flag + sizeOf r.pvalue := rfl
      exact (h.flaggedPropval (by omega) (by omega)).map (by simp)
  · simp only [if_neg h1]
    exact Parses.of_none rfl

lemma parses_name (hconv : x.iconv.Lawful) (unicode : Bool) (s : CString) :
    Parses (pullName x unicode) (pushName x unicode s) s (NameFits x unicode s) := by
  unfold pullName pushName NameFits
  cases unicode with
  | true => exact parses_wstring x hconv s
  | false => exact parses_string x s

/-- With the flag `RECIPIENT_ROW_FLAG_SAME` alone there are no names, and none is taken for the
other. -/
lemma pullRecipientRow_eq (pproptags : List UInt32) :
    pullRecipientRow x depth pproptags = (do
      let flags ← pullUint16
      let pprefixUsed ← pullIf (flags &&& 0x0007 = 1) (pullAs pullUint8 id)
      let pdisplayType ← pullIf (flags &&& 0x0007 = 1) pullUint8
      let px500dn ← pullIf (flags &&& 0x0007 = 1) pullString
      let pentryId ← pullIf (flags &&& 0x0007 = 6 ∨ flags &&& 0x0007 = 7) (pullAs (pullBinary x) id)
      let psearchKey ← pullIf (flags &&& 0x0007 = 6 ∨ flags &&& 0x0007 = 7) (pullAs (pullBinary x) id)
      let paddressType ← pullIf (flags &&& 0x0007 = 0 ∧ flags &&& 0x8000 ≠ 0) pullString
      let pmailAddress ← pullIf (flags &&& 0x0008 ≠ 0) (pullName x (flags &&& 0x0200 ≠ 0))
      let pdisplayName ← pullIf (flags &&& 0x0010 ≠ 0) (pullName x (flags &&& 0x0200 ≠ 0))
      let psimpleName ← pullIf (flags &&& 0x0400 ≠ 0) (pullName x (flags &&& 0x0200 ≠ 0))
      let ptransmittableName ← pullIf (flags &&& 0x0020 ≠ 0) (pullName x (flags &&& 0x0200 ≠ 0))
      let count ← pullUint16
      if pproptags.length < count.toNat then fail .format
      else do
        let properties ← pullPropertyRow x depth (pproptags.take count.toNat)
        pure { flags, pprefixUsed, pdisplayType, px500dn, pentryId, psearchKey, paddressType,
               pmailAddress, pdisplayName, psimpleName, ptransmittableName, count, properties }) := by
  unfold pullRecipientRow
  refine congrArg (pullUint16 >>= ·) (funext fun flags => ?_)
  by_cases h : flags = 0x0040
  · subst h
    rfl
  · simp only [if_neg h]

/-- What the end of a row builds it from. -/
lemma returns_counted {count : ℕ} {columns : List UInt32} {f : PropertyRow → RecipientRow}
    {r : RecipientRow} (h : Returns (if columns.length < count then fail .format else do
      let properties ← pullPropertyRow x depth (columns.take count)
      pure (f properties)) r) : ∃ properties, r = f properties := by
  split_ifs at h
  · obtain ⟨e, -⟩ := h
    exact e.elim
  · obtain ⟨properties, -, h⟩ := returns_bind.mp h
    exact ⟨properties, h⟩

lemma ReadBack.recipientRow (hconv : x.iconv.Lawful) (h : ReadBack x depth n)
    (pproptags : List UInt32) (r : RecipientRow) (hn : sizeOf r.properties ≤ n) :
    Parses (pullRecipientRow x depth pproptags) (pushRecipientRow x pproptags r) r
      (RecipientRowFits x pproptags r) := by
  have hname : ∀ unicode, ∀ a : Option CString, ∀ s ∈ a, Parses (pullName x unicode)
      (pushName x unicode s) s (NameFits x unicode s) := fun unicode _ s _ => parses_name hconv unicode s
  have hbinary : ∀ a : Option Bytes, ∀ v ∈ a, Parses (pullAs (pullBinary x) id) (pushBinary x v) v
      True := fun _ v _ => (parses_binary x v).as (f := id) (by simp)
  rw [pullRecipientRow_eq]
  unfold pushRecipientRow
  refine (parses_uint16 r.flags).then <|
    Parses.field (fun v _ => (parses_uint8 v).as (f := id) (by simp)) ?_ <|
    Parses.field (fun v _ => parses_uint8 v) ?_ <|
    Parses.field (fun v _ => parses_string x v) ?_ <|
    Parses.field (hbinary _) ?_ <| Parses.field (hbinary _) ?_ <|
    Parses.field (fun v _ => parses_string x v) ?_ <|
    Parses.field (hname _ _) ?_ <| Parses.field (hname _ _) ?_ <| Parses.field (hname _ _) ?_ <|
    Parses.field (hname _ _) ?_ <| (parses_uint16 r.count).then ?properties
  case properties =>
    split_ifs
    · exact Parses.of_none rfl
    · exact (h.propertyRow _ r.properties hn).map (by simp)
  -- whatever is read for a field is found in the row
  all_goals
    intro v hv
    repeat obtain ⟨_, -, hv⟩ := returns_bind.mp hv
    obtain ⟨_, hr⟩ := returns_counted hv
    rw [hr]

/-! A recipient row behind its size. -/

section

variable {α β : Type} {p : Pull α} {em : Emit} {a : α} {g : Prop} {f : α → β}

lemma Parses.withinAs (h : Parses p em a g) (hinj : ∀ a', f a = f a' → a' = a) :
    Parses (do
      let size ← pullUint16
      let r ← pullWithin size.toNat p
      pure (f r)) (.sized 2 em) (f a) (g ∧ em.size < 2 ^ 16) := h.within.map hinj

/-- A size of zero stands for a part that is not there. -/
lemma Parses.withinUnless (h : Parses p em a g) (hinj : ∀ a', f a = f a' → a' = a) {c : β}
    (hc : c ≠ f a) (hpos : 0 < em.size) :
    Parses (do
      let size ← pullUint16
      if size = 0 then pure c
      else do
        let r ← pullWithin size.toNat p
        pure (f r)) (.sized 2 em) (f a) (g ∧ em.size < 2 ^ 16) := by
  intro bs hbs b off hb hat t
  have hwithin := h.withinAs hinj bs hbs b off hb hat t
  obtain ⟨cs, hcs, rfl⟩ := encoding_sized.mp hbs
  rw [run_then_of (run_size hcs (at_append.mp hat).1)] at hwithin ⊢
  by_cases h0 : UInt16.ofNat em.size = 0
  · -- 65536 bytes, or a multiple of that
    have hlong : ¬ em.size < 2 ^ 16 := by
      intro hlt
      have := congrArg UInt16.toNat h0
      rw [UInt16.toNat_ofNat_lt hlt, UInt16.toNat_zero] at this
      omega
    rw [if_pos h0, run_ret]
    refine ⟨fun hr => ?_, fun hg => absurd hg.1.1.2 hlong⟩
    cases hr
    exact absurd rfl hc
  · rw [if_neg h0, hwithin]

end

lemma size_pushRecipientRow_pos (pproptags : List UInt32) (r : RecipientRow) :
    0 < (pushRecipientRow x pproptags r).size := by
  unfold pushRecipientRow
  simp only [Emit.size, pushUint16, length_le]
  omega

section

variable {depth n : ℕ}

lemma ReadBack.openrecipientRow (hconv : x.iconv.Lawful) (h : ReadBack x depth n)
    (pproptags : List UInt32) (r : OpenrecipientRow) (hn : sizeOf r.recipientRow.properties ≤ n) :
    Parses (pullOpenrecipientRow x depth pproptags) (pushOpenrecipientRow x pproptags r) r
      (RecipientRowFits x pproptags r.recipientRow ∧
        (pushRecipientRow x pproptags r.recipientRow).size < 2 ^ 16) := by
  unfold pullOpenrecipientRow pushOpenrecipientRow
  exact (parses_uint8 _).then <| (parses_uint16 _).then <| (parses_uint16 _).then <|
    (h.recipientRow hconv pproptags r.recipientRow hn).withinAs
      (f := fun row => { r with recipientRow := row }) (by simp)

lemma ReadBack.modifyrecipientRow (hconv : x.iconv.Lawful) (h : ReadBack x depth n)
    (pproptags : List UInt32) (r : ModifyrecipientRow)
    (hn : ∀ row ∈ r.precipientRow, sizeOf row.properties ≤ n) :
    Parses (pullModifyrecipientRow x depth pproptags) (pushModifyrecipientRow x pproptags r) r
      (∀ row ∈ r.precipientRow, RecipientRowFits x pproptags row ∧
        (pushRecipientRow x pproptags row).size < 2 ^ 16) := by
  obtain ⟨rowId, recipientType, precipientRow⟩ := r
  unfold pullModifyrecipientRow pushModifyrecipientRow
  refine (parses_uint32 _).then ((parses_uint8 _).then ?_)
  cases precipientRow with
  | none =>
    refine Parses.congr (g := True) ?_ (by simp)
    exact (parses_uint16 0).last rfl
  | some row =>
    have hsome := (h.recipientRow hconv pproptags row (hn row rfl)).allocated.withinUnless
      (f := fun row => ModifyrecipientRow.mk rowId recipientType (some row))
      (c := ModifyrecipientRow.mk rowId recipientType none) (by simp) (by simp)
      (size_pushRecipientRow_pos pproptags row)
    exact hsome.congr (by simp)

lemma ReadBack.readrecipientRow (hconv : x.iconv.Lawful) (h : ReadBack x depth n)
    (pproptags : List UInt32) (r : ReadrecipientRow) (hn : sizeOf r.recipientRow.properties ≤ n) :
    Parses (pullReadrecipientRow x depth pproptags) (pushReadrecipientRow x pproptags r) r
      (RecipientRowFits x pproptags r.recipientRow ∧
        (pushRecipientRow x pproptags r.recipientRow).size < 2 ^ 16) := by
  unfold pullReadrecipientRow pushReadrecipientRow
  exact (parses_uint32 _).then <| (parses_uint8 _).then <| (parses_uint16 _).then <|
    (parses_uint16 _).then <| (h.recipientRow hconv pproptags r.recipientRow hn).withinAs
      (f := fun row => { r with recipientRow := row }) (by simp)

end

/-! All rows. -/

/-- The rows and the value of a cell, with the type or the columns that both sides are given. -/
inductive Row
  | flagged (type : UInt16) (r : FlaggedPropval)
  | property (pcolumns : List UInt32) (r : PropertyRow)
  | recipient (pproptags : List UInt32) (r : RecipientRow)
  | openrecipient (pproptags : List UInt32) (r : OpenrecipientRow)
  | modifyrecipient (pproptags : List UInt32) (r : ModifyrecipientRow)
  | readrecipient (pproptags : List UInt32) (r : ReadrecipientRow)

namespace Row

variable (x)

def push : Row → Emit
  | flagged type r => pushFlaggedPropval x type r
  | property pcolumns r => pushPropertyRow x pcolumns r
  | recipient pproptags r => pushRecipientRow x pproptags r
  | openrecipient pproptags r => pushOpenrecipientRow x pproptags r
  | modifyrecipient pproptags r => pushModifyrecipientRow x pproptags r
  | readrecipient pproptags r => pushReadrecipientRow x pproptags r

/-- The pull function of the same kind undoes the push. -/
def UndoneBy (p : Pushed) : Row → Prop
  | flagged type r => Undone (fun depth => pullFlaggedPropval x depth type) p r
  | property pcolumns r => Undone (fun depth => pullPropertyRow x depth pcolumns) p r
  | recipient pproptags r => Undone (fun depth => pullRecipientRow x depth pproptags) p r
  | openrecipient pproptags r => Undone (fun depth => pullOpenrecipientRow x depth pproptags) p r
  | modifyrecipient pproptags r =>
    Undone (fun depth => pullModifyrecipientRow x depth pproptags) p r
  | readrecipient pproptags r => Undone (fun depth => pullReadrecipientRow x depth pproptags) p r

/-- A recipient row in another row has a size of 16 bits. -/
def Fits : Row → Prop
  | flagged type r => FlaggedFits x type r
  | property pcolumns r => PropertyRowFits x pcolumns r
  | recipient pproptags r => RecipientRowFits x pproptags r
  | openrecipient pproptags r =>
    RecipientRowFits x pproptags r.recipientRow ∧
      (pushRecipientRow x pproptags r.recipientRow).size < 2 ^ 16
  | modifyrecipient pproptags r =>
    ∀ row ∈ r.precipientRow, RecipientRowFits x pproptags row ∧
      (pushRecipientRow x pproptags row).size < 2 ^ 16
  | readrecipient pproptags r =>
    RecipientRowFits x pproptags r.recipientRow ∧
      (pushRecipientRow x pproptags r.recipientRow).size < 2 ^ 16

end Row

/-- **Rows that are read back.** Where the push of a row succeeds, it is undone by the pull function
of the same kind exactly if all of the row has been written and fits. -/
theorem row_undoneBy_iff (hconv : x.iconv.Lawful) {cap off : ℕ} (hcap : cap < 2 ^ 32)
    (hoff : off ≤ cap) (r : Row) (hs : ((r.push x).run cap off).status = .success) :
    r.UndoneBy x ((r.push x).run cap off) ↔ Sound cap off (r.push x) (r.Fits x) := by
  have hread := @readBack x hconv
  cases r with
  | flagged type r =>
    apply undone_iff (n := sizeOf r.pvalue + 2) ?_ hcap hoff hs
    intro depth hdepth
    exact (hread depth).flaggedPropval (by omega) (by omega)
  | property pcolumns r =>
    apply undone_iff (n := sizeOf r) ?_ hcap hoff hs
    intro depth hdepth
    exact (hread depth).propertyRow pcolumns r hdepth
  | recipient pproptags r =>
    apply undone_iff (n := sizeOf r.properties) ?_ hcap hoff hs
    intro depth hdepth
    exact (hread depth).recipientRow hconv pproptags r hdepth
  | openrecipient pproptags r =>
    apply undone_iff (n := sizeOf r.recipientRow.properties) ?_ hcap hoff hs
    intro depth hdepth
    exact (hread depth).openrecipientRow hconv pproptags r hdepth
  | modifyrecipient pproptags r =>
    apply undone_iff (n := sizeOf (r.precipientRow.map RecipientRow.properties)) ?_ hcap hoff hs
    intro depth hdepth
    apply (hread depth).modifyrecipientRow hconv pproptags r
    intro row hrow
    rw [Option.mem_def.mp hrow, Option.map_some, Option.some.sizeOf_spec] at hdepth
    omega
  | readrecipient pproptags r =>
    apply undone_iff (n := sizeOf r.recipientRow.properties) ?_ hcap hoff hs
    intro depth hdepth
    exact (hread depth).readrecipientRow hconv pproptags r hdepth

/-- A recipient with a display name, and an error in a column of numbers. -/
def namedRecipient : RecipientRow where
  flags := 0x0010
  pprefixUsed := none
  pdisplayType := none
  px500dn := none
  pentryId := none
  psearchKey := none
  paddressType := none
  pmailAddress := none
  pdisplayName := some (.of [0x41])
  psimpleName := none
  ptransmittableName := none
  count := 1
  properties := ⟨1, [.flagged ⟨0xA, .long 0x8004010f⟩]⟩

def namedRow : Row := .openrecipient [0x39000003] ⟨1, 0, 0, namedRecipient⟩

theorem row_undoneBy_iff_named :
    namedRow.UndoneBy unicodeSetup ((namedRow.push unicodeSetup).run 64 0) := by
  refine (row_undoneBy_iff (x := unicodeSetup) asciiIconv_lawful (by decide) (by decide) namedRow
    (by decide)).mpr ⟨?_, by decide, ?_, ?_⟩
  · have hrow : (pushRecipientRow unicodeSetup [0x39000003] namedRecipient).Whole :=
      ⟨trivial, trivial, trivial, trivial, trivial, trivial, trivial, trivial, trivial, trivial,
        trivial, trivial, trivial, ⟨trivial, trivial⟩, trivial⟩
    exact ⟨trivial, trivial, trivial, hrow⟩
  · have hnone : ∀ {α : Type} {c : Prop} {good : α → Prop}, ¬ c → FieldFits c good none :=
      fun hc => ⟨by simpa using hc, by simp⟩
    have hcell : PropertyRowFits unicodeSetup [0x39000003] namedRecipient.properties :=
      .cons (by simp [CellFits, FlaggedFits]) .nil
    have hname : FieldFits (namedRecipient.flags &&& 0x0010 ≠ 0)
        (NameFits unicodeSetup (namedRecipient.flags &&& 0x0200 ≠ 0)) namedRecipient.pdisplayName :=
      ⟨by decide, fun s hs => by cases hs; exact ⟨by decide, by decide⟩⟩
    exact ⟨⟨hnone (by decide), hnone (by decide), hnone (by decide), hnone (by decide),
      hnone (by decide), hnone (by decide), hnone (by decide), hname, hnone (by decide),
      hnone (by decide), hcell⟩, by decide⟩
  · have hrow : ∀ rest, (pushRecipientRow unicodeSetup [0x39000003] namedRecipient).Near rest :=
      fun rest => ⟨trivial, trivial, trivial, trivial, trivial, trivial, trivial, trivial, trivial, trivial,
        trivial, trivial, trivial, ⟨trivial, trivial⟩, trivial⟩
    exact ⟨trivial, trivial, trivial, hrow _⟩

/-- An error in a column without a type is read back as a `TYPED_PROPVAL`. -/
theorem not_row_undoneBy : ¬ ∀ (x : Setup) (cap off : ℕ) (r : Row), x.iconv.Lawful →
    x.tbllmt = false → cap < 2 ^ 32 → off ≤ cap → ((r.push x).run cap off).status = .success →
    r.UndoneBy x ((r.push x).run cap off) := by
  intro h
  have herror := h unicodeSetup 64 0 (.flagged 0 ⟨0xA, .long 5⟩) asciiIconv_lawful rfl (by decide)
    (by decide) (by decide)
  obtain ⟨-, enough, hrestores⟩ := herror
  have hread := hrestores enough le_rfl ⟨[0x0A, 0, 0x0A, 5, 0, 0, 0], by decide, fun _ => true⟩
    (fun _ => rfl) (by decide)
  have htyped : Input.run ⟨[0x0A, 0, 0x0A, 5, 0, 0, 0], by decide, fun _ => true⟩
      (pullFlaggedPropval unicodeSetup enough 0) 0 = .ok (⟨0xA, .typed 0x000A (.long 5)⟩, 7) := rfl
  rw [htyped] at hread
  cases hread

end SteepSystem.ExtBuffer
