import SteepSystem.Messages.Dup

/-!
The values that are copied and measured: each rule says when a step of a copy gives back what it is
given and when the size of it comes about.
-/

namespace SteepSystem.Messages

open ExtBuffer

variable {α β γ δ τ : Type} [DecidableEq τ] {d : Dup α} {e : Dup β} {s t : Option UInt32}
  {a : α} {b : β}

/-- The copy is equal to the original and has a size. -/
def Sound (d : Dup α) (s : Option UInt32) (a : α) : Prop := d = .ok a ∧ s.isSome = true

/-- The type of a pointer is among those that go with what it points to. -/
def Labelled (label : Option τ) (labels : List τ) : Prop := ∃ t ∈ labels, label = some t

@[simp] lemma isSome_plus (s t : Option UInt32) :
    (plus s t).isSome = true ↔ s.isSome = true ∧ t.isSome = true := by
  cases s <;> cases t <;> simp [plus]

@[simp] lemma sound_some (n : UInt32) : Sound d (some n) a ↔ d = .ok a := by simp [Sound]

@[simp] lemma sound_none : ¬ Sound d none a := by simp [Sound]

@[simp] lemma sound_ok : Sound (.ok a) s a ↔ s.isSome = true := by simp [Sound]

@[simp] lemma sound_error (f : Fault) : ¬ Sound (.error f) s a := by simp [Sound]

@[simp] lemma sound_plus_some (n : UInt32) : Sound d (plus (some n) s) a ↔ Sound d s a := by
  simp [Sound]

@[simp] lemma sound_memdup (n m : ℕ) : Sound (memdup n m a) s a ↔ m ≤ n ∧ s.isSome = true := by
  unfold memdup
  split_ifs with h
  · simp [h]
  · simp [h]

@[simp] lemma sound_counted (n count : ℕ) :
    Sound (counted n count d) s a ↔ count < 2 ^ n ∧ Sound d s a := by
  unfold counted
  split_ifs with h
  · simp [Nat.not_lt.mpr h]
  · simp [Nat.not_le.mp h]

@[simp] lemma sound_countedSome (n count : ℕ) :
    Sound (countedSome n count d) s a ↔ count < 2 ^ n ∧ count ≠ 0 ∧ Sound d s a := by
  rw [countedSome, sound_counted]
  split_ifs with h
  · simp [h]
  · simp [h]

@[simp] lemma sound_labelled (label : Option τ) (labels : List τ) :
    Sound (labelled label labels d) (labelledSize label labels s) a ↔
      Labelled label labels ∧ Sound d s a := by
  cases label with
  | none => simp [labelled, Labelled]
  | some t =>
    unfold labelled labelledSize
    dsimp only
    split_ifs with h
    · simp [Labelled, h]
    · simp [Labelled, h]

/-- A copy put into the structure that its original is part of. -/
@[simp] lemma sound_map {f : α → β} (hf : ∀ a b, f a = f b → a = b) :
    Sound (f <$> d) s (f a) ↔ Sound d s a := by
  cases d with
  | error => simp [Sound, Functor.map, Except.map]
  | ok c =>
    have hinj : f c = f a ↔ c = a := ⟨hf c a, fun h => by rw [h]⟩
    simp [Sound, Functor.map, Except.map, hinj]

/-- Two copies put into one structure. -/
@[simp] lemma sound_two {f : α → β → γ} (hf : ∀ a b a' b', f a b = f a' b' → a = a' ∧ b = b') :
    Sound (d >>= fun a => e >>= fun b => pure (f a b)) (plus s t) (f a b) ↔
      Sound d s a ∧ Sound e t b := by
  have hbind : (d >>= fun a => e >>= fun b => pure (f a b)) = .ok (f a b) ↔
      d = .ok a ∧ e = .ok b := by
    cases d with
    | error => simp [bind, Except.bind]
    | ok c =>
      cases e with
      | error => simp [bind, Except.bind]
      | ok c' =>
        simp only [bind, Except.bind, pure, Except.pure, Except.ok.injEq]
        exact ⟨hf _ _ _ _, fun ⟨h, h'⟩ => by rw [h, h']⟩
  rw [Sound, Sound, Sound, hbind, isSome_plus]
  tauto

/-- Three copies put into one structure. -/
lemma sound_three {f : α → β → γ → δ} {g : Dup γ} {u : Option UInt32} {c : γ}
    (hf : ∀ a b c a' b' c', f a b c = f a' b' c' → a = a' ∧ b = b' ∧ c = c') :
    Sound (d >>= fun a => e >>= fun b => g >>= fun c => pure (f a b c)) (plus s (plus t u))
      (f a b c) ↔ Sound d s a ∧ Sound e t b ∧ Sound g u c := by
  have hpair : (d >>= fun a => e >>= fun b => g >>= fun c => pure (f a b c)) =
      (fun p : α × β × γ => f p.1 p.2.1 p.2.2) <$>
        (d >>= fun a => (e >>= fun b => g >>= fun c => pure (b, c)) >>= fun p => pure (a, p)) := by
    cases d with
    | error => rfl
    | ok => cases e with
      | error => rfl
      | ok => cases g <;> rfl
  rw [hpair]
  change Sound _ _ ((fun p : α × β × γ => f p.1 p.2.1 p.2.2) (a, b, c)) ↔ _
  rw [sound_map (fun p q h => by
    obtain ⟨h1, h2, h3⟩ := hf _ _ _ _ _ _ h
    exact Prod.ext h1 (Prod.ext h2 h3)), sound_two (by simp), sound_two (by simp)]

lemma sound_ite {p : Prop} [Decidable p] :
    Sound d (if p then s else t) a ↔ (p → Sound d s a) ∧ (¬ p → Sound d t a) := by
  split_ifs with h <;> simp [h]

@[simp] lemma sound_eachDup {dup : α → Dup α} {size : α → Option UInt32} {l : List α} :
    Sound (eachDup dup l) (eachSize size l) l ↔ ∀ a ∈ l, Sound (dup a) (size a) a := by
  induction l with
  | nil => simp [eachDup, eachSize]
  | cons a l ih =>
    rw [eachDup, eachSize, sound_two (by simp), ih]
    simp

lemma sound_presentDup {dup : α → Dup α} {size : α → Option UInt32} {r : Option α} :
    Sound (presentDup dup r) (presentSize size r) r ↔ ∀ a ∈ r, Sound (dup a) (size a) a := by
  cases r with
  | none => simp [presentDup, presentSize]
  | some a => simp [presentDup, presentSize]

/-- The block has room for the copy unless its slots are too small for the elements. -/
@[simp] lemma sound_arrayDup (slot size : ℕ) (l : List α) :
    Sound (arrayDup slot size l) s l ↔
      l.length < 2 ^ 32 ∧ (size ≤ slot ∨ l = []) ∧ s.isSome = true := by
  rw [arrayDup, sound_counted]
  cases l with
  | nil => simp
  | cons a l =>
    have hle : size * (a :: l).length ≤ slot * (a :: l).length ↔ size ≤ slot :=
      Nat.mul_le_mul_right_iff (by simp)
    simp only [List.length_cons, Nat.add_eq_zero_iff, one_ne_zero, and_false, if_false,
      reduceCtorEq, or_false] at hle ⊢
    rw [sound_memdup, hle]

@[simp] lemma strdup_eq (r : CString) : strdup r = .ok r := if_pos (le_refl _)

@[simp] lemma sound_binaryDup (pb : Bytes) :
    Sound (binaryDup pb) s pb ↔ pb.length < 2 ^ 32 ∧ s.isSome = true := by
  simp [binaryDup]

/-! What can be copied. -/

/-- `utf8_len` does not pass the terminator: no character is cut off at the end. -/
def Measured (str : CString) : Prop := (utf8Len str).isSome = true

lemma isSome_propvalUtf16Len (str : CString) :
    (propvalUtf16Len str).isSome = true ↔ Measured str := by
  rw [propvalUtf16Len, Option.isSome_map, Measured]

def SvreidCopies : Svreid → Prop
  | .ours .. => True
  | .other pbin => pbin.length < 2 ^ 32

mutual

def PropvalCopies (type : UInt16) : PropVal → Prop
  | .null => False
  | .typed t v => Labelled (typeOf type) [.unspecified] ∧ PropvalCopies t v
  | .short _ => Labelled (typeOf type) [.short]
  | .long _ => Labelled (typeOf type) [.error, .long]
  | .float _ => Labelled (typeOf type) [.float]
  | .double _ => Labelled (typeOf type) [.double, .floatingtime]
  | .byte _ => Labelled (typeOf type) [.byte]
  | .longlong _ => Labelled (typeOf type) [.currency, .longlong, .filetime]
  | .string pstr =>
    Labelled (typeOf type) [.string, .wstring] ∧ (typeOf type = some .wstring → Measured pstr)
  | .guid _ => Labelled (typeOf type) [.guid]
  | .svreid r => Labelled (typeOf type) [.svreid] ∧ SvreidCopies r
  | .restriction r => Labelled (typeOf type) [.restriction] ∧ RestrictionCopies r
  | .rule pblock =>
    Labelled (typeOf type) [.rule] ∧ pblock.length < 2 ^ 16 ∧ pblock.length ≠ 0 ∧
      ActionBlocksCopy pblock
  | .binary pb => Labelled (typeOf type) [.binary, .object] ∧ pb.length < 2 ^ 32
  | .shortArray ps => Labelled (typeOf type) [.shortArray] ∧ ps.length < 2 ^ 32
  | .longArray pl => Labelled (typeOf type) [.longArray] ∧ pl.length < 2 ^ 32
  | .longlongArray pll => Labelled (typeOf type) [.longlongArray] ∧ pll.length < 2 ^ 32
  | .stringArray ppstr =>
    Labelled (typeOf type) [.stringArray, .wstringArray] ∧ ppstr.length < 2 ^ 31 ∧
      (typeOf type = some .wstringArray → ∀ pstr ∈ ppstr, Measured pstr)
  | .guidArray pguid => Labelled (typeOf type) [.guidArray] ∧ pguid = []
  | .binaryArray pbin =>
    Labelled (typeOf type) [.binaryArray] ∧ pbin.length < 2 ^ 31 ∧ ∀ pb ∈ pbin, pb.length < 2 ^ 32

def TaggedCopies : TaggedPropval → Prop
  | .mk proptag pvalue => PropvalCopies proptag.toUInt16 pvalue

def TaggedsCopy : List TaggedPropval → Prop
  | [] => True
  | r :: l => TaggedCopies r ∧ TaggedsCopy l

def RestrictionCopies : Restriction → Prop
  | .and pres => pres.length < 2 ^ 31 ∧ RestrictionsCopy pres
  | .or pres => pres.length < 2 ^ 31 ∧ RestrictionsCopy pres
  | .not res => RestrictionCopies res
  | .content _ _ propval => TaggedCopies propval
  | .property _ _ propval => TaggedCopies propval
  | .propcompare .. => True
  | .bitmask .. => True
  | .size .. => True
  | .exist _ => True
  | .subobj _ res => RestrictionCopies res
  | .comment ppropval pres =>
    (ppropval.length < 2 ^ 8 ∧ TaggedsCopy ppropval) ∧ PresentRestrictionCopies pres
  | .count _ subRes => RestrictionCopies subRes
  | .null => False

def PresentRestrictionCopies : Option Restriction → Prop
  | some pres => RestrictionCopies pres
  | none => True

def RestrictionsCopy : List Restriction → Prop
  | [] => True
  | r :: l => RestrictionCopies r ∧ RestrictionsCopy l

def RecipientBlockCopies : RecipientBlock → Prop
  | .mk _ ppropval => ppropval.length < 2 ^ 16 ∧ ppropval.length ≠ 0 ∧ TaggedsCopy ppropval

def RecipientBlocksCopy : List RecipientBlock → Prop
  | [] => True
  | r :: l => RecipientBlockCopies r ∧ RecipientBlocksCopy l

/-- The size of a move or a copy comes out of a function without a `return`. -/
def ActionDataCopies (type : UInt8) (length : UInt16) : ActionData → Prop
  | .null => Labelled (ActionType.of type) [.delete, .markAsRead]
  | .movecopy _ => False
  | .reply _ => Labelled (ActionType.of type) [.reply, .oofReply]
  | .bytes data =>
    Labelled (ActionType.of type) [.deferAction] ∧ data.length = (length - 9).toNat
  | .bounce _ => Labelled (ActionType.of type) [.bounce]
  | .forwarddelegate pblock =>
    Labelled (ActionType.of type) [.forward, .delegate] ∧ pblock.length < 2 ^ 16 ∧
      pblock.length ≠ 0 ∧ RecipientBlocksCopy pblock
  | .tag r => Labelled (ActionType.of type) [.tag] ∧ TaggedCopies r

def ActionBlockCopies : ActionBlock → Prop
  | .mk length type _ _ pdata => ActionDataCopies type length pdata

def ActionBlocksCopy : List ActionBlock → Prop
  | [] => True
  | r :: l => ActionBlockCopies r ∧ ActionBlocksCopy l

end

lemma sound_svreidDup (r : Svreid) (n : UInt32) :
    Sound (svreidDup r) (some n) r ↔ SvreidCopies r := by
  cases r with
  | ours => simp only [svreidDup, SvreidCopies, sound_memdup, Option.isSome_some, le_refl, and_self]
  | other pbin =>
    rw [svreidDup, sound_map (by simp), sound_binaryDup, SvreidCopies]
    simp

mutual

lemma propval_sound (type : UInt16) : ∀ v : PropVal,
    Sound (propvalDup type v) (propvalSize type v) v ↔ PropvalCopies type v
  | .null => by rw [propvalDup, PropvalCopies, iff_false]; exact sound_error _
  | .typed t v => by
    rw [propvalDup, propvalSize, sound_labelled, sound_map (by simp), propval_sound t v,
      PropvalCopies]
  | .short v => by simp [propvalDup, propvalSize, PropvalCopies, -sound_some]
  | .long v => by simp [propvalDup, propvalSize, PropvalCopies, -sound_some]
  | .float bits => by simp [propvalDup, propvalSize, PropvalCopies, -sound_some]
  | .double bits => by simp [propvalDup, propvalSize, PropvalCopies, -sound_some]
  | .byte v => by simp [propvalDup, propvalSize, PropvalCopies, -sound_some]
  | .longlong v => by simp [propvalDup, propvalSize, PropvalCopies, -sound_some]
  | .string pstr => by
    rw [propvalDup, propvalSize, sound_labelled, sound_map (by simp), strdup_eq, sound_ok,
      PropvalCopies]
    split_ifs with h
    · simp [h, isSome_propvalUtf16Len]
    · simp [h]
  | .guid r => by simp [propvalDup, propvalSize, PropvalCopies, -sound_some]
  | .svreid r => by
    rw [propvalDup, propvalSize, sound_labelled, sound_map (by simp), sound_svreidDup,
      PropvalCopies]
  | .restriction r => by
    rw [propvalDup, propvalSize, sound_labelled, sound_map (by simp), restriction_sound r,
      PropvalCopies]
  | .rule pblock => by
    rw [propvalDup, propvalSize, sound_labelled, sound_map (by simp), sound_countedSome,
      sound_plus_some, actionBlocks_sound pblock, PropvalCopies]
  | .binary pb => by simp [propvalDup, propvalSize, PropvalCopies, -sound_some]
  | .shortArray ps => by simp [propvalDup, propvalSize, PropvalCopies, -sound_some]
  | .longArray pl => by simp [propvalDup, propvalSize, PropvalCopies, -sound_some]
  | .longlongArray pll => by simp [propvalDup, propvalSize, PropvalCopies, -sound_some]
  | .stringArray ppstr => by
    rw [propvalDup, propvalSize, sound_labelled, sound_map (by simp), loopDup, sound_counted,
      sound_ite, PropvalCopies]
    simp [isSome_propvalUtf16Len]
  | .guidArray pguid => by
    have hempty : pguid.length < 2 ^ 32 ∧ pguid = [] ↔ pguid = [] :=
      and_iff_right_of_imp fun h => by rw [h]; decide
    rw [PropvalCopies, ← hempty]
    simp [propvalDup, propvalSize, -sound_some]
  | .binaryArray pbin => by
    simp [propvalDup, propvalSize, PropvalCopies, loopDup, -sound_some]

lemma tagged_sound : ∀ r : TaggedPropval,
    Sound (taggedPropvalDup r) (taggedPropvalSize r) r ↔ TaggedCopies r
  | .mk proptag pvalue => by
    rw [taggedPropvalDup, taggedPropvalSize, sound_map (by simp), propval_sound _ pvalue,
      TaggedCopies]

lemma taggeds_sound : ∀ l : List TaggedPropval,
    Sound (taggedPropvalsDup l) (taggedPropvalsSize l) l ↔ TaggedsCopy l
  | [] => by simp [taggedPropvalsDup, taggedPropvalsSize, TaggedsCopy]
  | r :: l => by
    rw [taggedPropvalsDup, taggedPropvalsSize, sound_two (by simp), sound_plus_some, tagged_sound r,
      taggeds_sound l, TaggedsCopy]

lemma restriction_sound : ∀ r : Restriction,
    Sound (restrictionDup r) (restrictionSize r) r ↔ RestrictionCopies r
  | .and pres => by
    rw [restrictionDup, restrictionSize, sound_map (by simp), sound_counted, sound_plus_some,
      restrictions_sound pres, RestrictionCopies]
  | .or pres => by
    rw [restrictionDup, restrictionSize, sound_map (by simp), sound_counted, sound_plus_some,
      restrictions_sound pres, RestrictionCopies]
  | .not res => by
    rw [restrictionDup, restrictionSize, sound_map (by simp), sound_plus_some,
      restriction_sound res, RestrictionCopies]
  | .content fuzzyLevel proptag propval => by
    rw [restrictionDup, restrictionSize, sound_map (by simp), sound_plus_some, tagged_sound propval,
      RestrictionCopies]
  | .property relop proptag propval => by
    rw [restrictionDup, restrictionSize, sound_map (by simp), sound_plus_some, tagged_sound propval,
      RestrictionCopies]
  | .propcompare .. => by simp [restrictionDup, restrictionSize, RestrictionCopies]
  | .bitmask .. => by simp [restrictionDup, restrictionSize, RestrictionCopies]
  | .size .. => by simp [restrictionDup, restrictionSize, RestrictionCopies]
  | .exist _ => by simp [restrictionDup, restrictionSize, RestrictionCopies]
  | .subobj subobject res => by
    rw [restrictionDup, restrictionSize, sound_map (by simp), sound_plus_some,
      restriction_sound res, RestrictionCopies]
  | .comment ppropval pres => by
    rw [restrictionDup, restrictionSize, sound_plus_some, sound_two (by simp), sound_counted,
      taggeds_sound ppropval, presentRestriction_sound pres, RestrictionCopies]
  | .count count subRes => by
    rw [restrictionDup, restrictionSize, sound_map (by simp), sound_plus_some,
      restriction_sound subRes, RestrictionCopies]
  | .null => by rw [restrictionDup, RestrictionCopies, iff_false]; exact sound_error _

lemma presentRestriction_sound : ∀ r : Option Restriction,
    Sound (presentRestrictionDup r) (presentRestrictionSize r) r ↔ PresentRestrictionCopies r
  | some pres => by
    rw [presentRestrictionDup, presentRestrictionSize, sound_map (by simp), restriction_sound pres,
      PresentRestrictionCopies]
  | none => by simp [presentRestrictionDup, presentRestrictionSize, PresentRestrictionCopies]

lemma restrictions_sound : ∀ l : List Restriction,
    Sound (restrictionsDup l) (restrictionsSize l) l ↔ RestrictionsCopy l
  | [] => by simp [restrictionsDup, restrictionsSize, RestrictionsCopy]
  | r :: l => by
    rw [restrictionsDup, restrictionsSize, sound_two (by simp), restriction_sound r,
      restrictions_sound l, RestrictionsCopy]

lemma recipientBlock_sound : ∀ r : RecipientBlock,
    Sound (recipientBlockDup r) (recipientBlockSize r) r ↔ RecipientBlockCopies r
  | .mk reserved ppropval => by
    rw [recipientBlockDup, recipientBlockSize, sound_map (by simp), sound_countedSome,
      sound_plus_some, taggeds_sound ppropval, RecipientBlockCopies]

lemma recipientBlocks_sound : ∀ l : List RecipientBlock,
    Sound (recipientBlocksDup l) (recipientBlocksSize l) l ↔ RecipientBlocksCopy l
  | [] => by simp [recipientBlocksDup, recipientBlocksSize, RecipientBlocksCopy]
  | r :: l => by
    rw [recipientBlocksDup, recipientBlocksSize, sound_two (by simp), recipientBlock_sound r,
      recipientBlocks_sound l, RecipientBlocksCopy]

lemma actionData_sound (type : UInt8) (length : UInt16) : ∀ r : ActionData,
    Sound (actionDataDup type length r) (actionDataSize type length r) r ↔
      ActionDataCopies type length r
  | .null => by simp [actionDataDup, actionDataSize, ActionDataCopies]
  | .movecopy r => by
    rw [actionDataDup, actionDataSize, sound_labelled, ActionDataCopies]
    simp
  | .reply r => by simp [actionDataDup, actionDataSize, ActionDataCopies, -sound_some]
  | .bytes data => by
    rw [actionDataDup, actionDataSize, sound_labelled, ActionDataCopies]
    split_ifs with h
    · simp [h, -sound_some]
    · simp [h]
  | .bounce code => by simp [actionDataDup, actionDataSize, ActionDataCopies, -sound_some]
  | .forwarddelegate pblock => by
    rw [actionDataDup, actionDataSize, sound_labelled, sound_map (by simp), sound_countedSome,
      sound_plus_some, recipientBlocks_sound pblock, ActionDataCopies]
  | .tag r => by
    rw [actionDataDup, actionDataSize, sound_labelled, sound_map (by simp), sound_plus_some,
      tagged_sound r, ActionDataCopies]

lemma actionBlock_sound : ∀ r : ActionBlock,
    Sound (actionBlockDup r) (actionBlockSize r) r ↔ ActionBlockCopies r
  | .mk length type flavor flags pdata => by
    rw [actionBlockDup, actionBlockSize, sound_map (by simp), sound_plus_some,
      actionData_sound type length pdata, ActionBlockCopies]

lemma actionBlocks_sound : ∀ l : List ActionBlock,
    Sound (actionBlocksDup l) (actionBlocksSize l) l ↔ ActionBlocksCopy l
  | [] => by simp [actionBlocksDup, actionBlocksSize, ActionBlocksCopy]
  | r :: l => by
    rw [actionBlocksDup, actionBlocksSize, sound_two (by simp), actionBlock_sound r,
      actionBlocks_sound l, ActionBlocksCopy]

end

end SteepSystem.Messages
