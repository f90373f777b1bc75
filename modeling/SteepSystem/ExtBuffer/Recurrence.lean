import SteepSystem.ExtBuffer.ExtRules
import SteepSystem.ExtBuffer.TimeZones

/-!
Recurrence patterns of appointments, pushed and pulled back. The size of the first reserved block is
written and the block is not; the texts of an exception have their counts in 16 bits.
-/

namespace SteepSystem.ExtBuffer

open SteepSystem.Lib.Bytes SteepSystem.Lib.Programs SteepSystem.Lib.Programs.Program

variable (x : Setup)

/-- The union has what goes with the type set. -/
def pushPatterntypespecific (patterntype : UInt16) (r : Patterntypespecific) : Emit :=
  if patterntype = 0x0000 then
    match r with
    | .day => .nothing
    | _ => .undefined
  else if patterntype = 0x0001 then
    match r with
    | .week weekrecurrence => pushUint32 weekrecurrence
    | _ => .undefined
  else if patterntype = 0x0002 ∨ patterntype = 0x0004 ∨ patterntype = 0x000A ∨
      patterntype = 0x000C then
    match r with
    | .month dayofmonth => pushUint32 dayofmonth
    | _ => .undefined
  else if patterntype = 0x0003 ∨ patterntype = 0x000B then
    match r with
    | .monthnth weekrecurrence recurrencenum =>
      .seq (pushUint32 weekrecurrence) (pushUint32 recurrencenum)
    | _ => .undefined
  else .fail .badSwitch

def pushRecurrencepattern (r : Recurrencepattern) : Emit :=
  .seq (pushUint16 r.readerversion) <| .seq (pushUint16 r.writerversion) <|
    .seq (pushUint16 r.recurfrequency) <| .seq (pushUint16 r.patterntype) <|
    .seq (pushUint16 r.calendartype) <| .seq (pushUint32 r.firstdatetime) <|
    .seq (pushUint32 r.period) <| .seq (pushUint32 r.slidingflag) <|
    .seq (pushPatterntypespecific r.patterntype r.patterntypespecific) <|
    .seq (pushUint32 r.endtype) <| .seq (pushUint32 r.occurrencecount) <|
    .seq (pushUint32 r.firstdow) <| .seq (pushLongArray r.pdeletedinstancedates) <|
    .seq (pushLongArray r.pmodifiedinstancedates) <| .seq (pushUint32 r.startdate)
    (pushUint32 r.enddate)

/-- A field that a flag announces. -/
def pushIf {α : Type} (c : Prop) [Decidable c] (push : α → Emit) (a : Option α) : Emit :=
  if c then
    match a with
    | some v => push v
    | none => .undefined
  else .nothing

/-- The length of the text is put into 16 bits. -/
def pushCountedText (text : CString) : Emit :=
  let tmpLen : UInt16 := .ofNat text.bytes.length
  .seq (pushUint16 (tmpLen + 1)) <| .seq (pushUint16 tmpLen)
    (.bytes (text.bytes.take tmpLen.toNat))

def pushExceptioninfo (r : Exceptioninfo) : Emit :=
  .seq (pushUint32 r.startdatetime) <| .seq (pushUint32 r.enddatetime) <|
    .seq (pushUint32 r.originalstartdate) <| .seq (pushUint16 r.overrideflags) <|
    .seq (pushIf (r.overrideflags &&& 0x0001 ≠ 0) pushCountedText r.subject) <|
    .seq (pushIf (r.overrideflags &&& 0x0002 ≠ 0) pushUint32 r.meetingtype) <|
    .seq (pushIf (r.overrideflags &&& 0x0004 ≠ 0) pushUint32 r.reminderdelta) <|
    .seq (pushIf (r.overrideflags &&& 0x0008 ≠ 0) pushUint32 r.reminderset) <|
    .seq (pushIf (r.overrideflags &&& 0x0010 ≠ 0) pushCountedText r.location) <|
    .seq (pushIf (r.overrideflags &&& 0x0020 ≠ 0) pushUint32 r.busystatus) <|
    .seq (pushIf (r.overrideflags &&& 0x0040 ≠ 0) pushUint32 r.attachment) <|
    .seq (pushIf (r.overrideflags &&& 0x0080 ≠ 0) pushUint32 r.subtype)
    (pushIf (r.overrideflags &&& 0x0100 ≠ 0) pushUint32 r.appointmentcolor)

def pushChangehighlight (r : Changehighlight) : Emit :=
  .seq (pushUint32 r.size) <| .seq (pushUint32 r.value) <|
    if r.size < 4 then .fail .format
    else if r.preserved.length = r.size.toNat - 4 then .bytes r.preserved
    else .undefined

/-- A block behind its size of 32 bits. -/
def pushExbinary (pb : Bytes) : Emit :=
  if 2 ^ 32 ≤ pb.length then .undefined
  else .seq (pushUint32 (.ofNat pb.length)) (.bytes pb)

/-- The buffer for the units is twice as long as the text with its terminator, whose length is put
into 16 bits. -/
def pushCountedWtext (text : CString) : Emit :=
  let tmpLen : UInt16 := .ofNat (text.bytes.length + 1)
  match x.iconv.toUtf16 text with
  | none => .fail .charcnv
  | some pbuff =>
    if 2 * tmpLen.toNat < pbuff.length + 2 then .fail .charcnv
    else .seq (pushUint16 (.ofNat (pbuff.length / 2))) (.bytes pbuff)

def pushExtendedexception (writerversion2 : UInt32) (overrideflags : UInt16)
    (r : Extendedexception) : Emit :=
  let subject? : Bool := overrideflags &&& 0x0001 ≠ 0
  let location? : Bool := overrideflags &&& 0x0010 ≠ 0
  .seq (pushIf (0x00003009 ≤ writerversion2) pushChangehighlight r.changehighlight) <|
    .seq (pushExbinary r.preservedblockee1) <|
    .seq (pushIf (location? ∨ subject?) pushUint32 r.startdatetime) <|
    .seq (pushIf (location? ∨ subject?) pushUint32 r.enddatetime) <|
    .seq (pushIf (location? ∨ subject?) pushUint32 r.originalstartdate) <|
    .seq (pushIf subject? (pushCountedWtext x) r.subject) <|
    .seq (pushIf location? (pushCountedWtext x) r.location)
    (pushIf (location? ∨ subject?) pushExbinary r.preservedblockee2)

/-- Of the first reserved block only the size is written. -/
def pushAppointmentrecurrencepattern (r : Appointmentrecurrencepattern) : Emit :=
  .seq (pushRecurrencepattern r.recurrencepattern) <| .seq (pushUint32 r.readerversion2) <|
    .seq (pushUint32 r.writerversion2) <| .seq (pushUint32 r.starttimeoffset) <|
    .seq (pushUint32 r.endtimeoffset) <|
    if 2 ^ 16 ≤ r.pexceptioninfo.length ∨ 2 ^ 32 ≤ r.preservedblock1.length then .undefined
    else
      .seq (pushUint16 (.ofNat r.pexceptioninfo.length)) <|
        .seq (pushEach pushExceptioninfo r.pexceptioninfo) <|
        .seq (pushUint32 (.ofNat r.preservedblock1.length)) <|
        .seq (pushCells (fun info : Exceptioninfo =>
          pushExtendedexception x r.writerversion2 info.overrideflags) r.pexceptioninfo
          r.pextendedexception)
        (pushExbinary r.preservedblock2)

/-! What comes back. -/

def TextFits (text : CString) : Prop := text.bytes.length < 65535

/-- The units have fewer than 65534 bytes; with just as many the bytes themselves come back. -/
def WtextFits (text : CString) : Prop :=
  ∃ w, x.iconv.toUtf16 text = some w ∧
    (w.length + 2 < 2 ^ 16 ∨ w.length + 2 = 2 ^ 16 ∧ CString.of w = text)

/-- A field is there exactly if a flag announces it, and its text fits. -/
def ExceptioninfoFits (r : Exceptioninfo) : Prop :=
  FieldFits (r.overrideflags &&& 0x0001 ≠ 0) TextFits r.subject ∧
    FieldFits (r.overrideflags &&& 0x0002 ≠ 0) (fun _ => True) r.meetingtype ∧
    FieldFits (r.overrideflags &&& 0x0004 ≠ 0) (fun _ => True) r.reminderdelta ∧
    FieldFits (r.overrideflags &&& 0x0008 ≠ 0) (fun _ => True) r.reminderset ∧
    FieldFits (r.overrideflags &&& 0x0010 ≠ 0) TextFits r.location ∧
    FieldFits (r.overrideflags &&& 0x0020 ≠ 0) (fun _ => True) r.busystatus ∧
    FieldFits (r.overrideflags &&& 0x0040 ≠ 0) (fun _ => True) r.attachment ∧
    FieldFits (r.overrideflags &&& 0x0080 ≠ 0) (fun _ => True) r.subtype ∧
    FieldFits (r.overrideflags &&& 0x0100 ≠ 0) (fun _ => True) r.appointmentcolor

def ExtendedexceptionFits (writerversion2 : UInt32) (overrideflags : UInt16)
    (r : Extendedexception) : Prop :=
  let subject? : Bool := overrideflags &&& 0x0001 ≠ 0
  let location? : Bool := overrideflags &&& 0x0010 ≠ 0
  FieldFits (0x00003009 ≤ writerversion2) (fun _ => True) r.changehighlight ∧
    FieldFits (location? ∨ subject?) (fun _ => True) r.startdatetime ∧
    FieldFits (location? ∨ subject?) (fun _ => True) r.enddatetime ∧
    FieldFits (location? ∨ subject?) (fun _ => True) r.originalstartdate ∧
    FieldFits subject? (WtextFits x) r.subject ∧
    FieldFits location? (WtextFits x) r.location ∧
    FieldFits (location? ∨ subject?) (fun _ => True) r.preservedblockee2

def ExceptionsFit (r : Appointmentrecurrencepattern) : Prop :=
  (∀ info ∈ r.pexceptioninfo, ExceptioninfoFits info) ∧
    List.Forall₂ (fun info : Exceptioninfo =>
      ExtendedexceptionFits x r.writerversion2 info.overrideflags) r.pexceptioninfo
      r.pextendedexception

variable {x}

lemma parses_patterntypespecific (patterntype : UInt16) (r : Patterntypespecific) :
    Parses (pullPatterntypespecific patterntype) (pushPatterntypespecific patterntype r) r True := by
  unfold pullPatterntypespecific pushPatterntypespecific
  split_ifs with hday hweek hmonth hnth
  · cases r with
    | day =>
      apply Parses.of_run
      rintro _ ⟨⟩ b off hb hat
      rfl
    | _ => exact Parses.of_none rfl
  · cases r with
    | week v => exact (parses_uint32 v).map (by simp)
    | _ => exact Parses.of_none rfl
  · cases r with
    | month v => exact (parses_uint32 v).map (by simp)
    | _ => exact Parses.of_none rfl
  · cases r with
    | monthnth v w => exact (parses_uint32 v).then ((parses_uint32 w).map (by simp))
    | _ => exact Parses.of_none rfl
  · exact Parses.of_none rfl

instance (patterntype : UInt16) (r : Patterntypespecific) :
    Plain (pushPatterntypespecific patterntype r) where
  near rest := by
    unfold pushPatterntypespecific
    split_ifs <;> cases r <;> trivial

instance {α : Type} (push : α → Emit) [∀ v, Plain (push v)] (l : List α) :
    Plain (pushArray push l) where
  near rest := by
    unfold pushArray
    split_ifs
    · trivial
    · exact ⟨trivial, near_pushEach _⟩

instance (l : List UInt32) : Plain (pushLongArray l) :=
  inferInstanceAs (Plain (pushArray pushUint32 l))

lemma parses_recurrencepattern (r : Recurrencepattern) :
    Parses pullRecurrencepattern (pushRecurrencepattern r) r True := by
  obtain ⟨a, b, c, d, e, f, g, h, i, j, k, l, m, n, o, p⟩ := r
  unfold pullRecurrencepattern pushRecurrencepattern
  exact (parses_uint16 _).then <| (parses_uint16 _).then <| (parses_uint16 _).then <|
    (parses_uint16 _).then <| (parses_uint16 _).then <| (parses_uint32 _).then <|
    (parses_uint32 _).then <| (parses_uint32 _).then <| (parses_patterntypespecific _ _).then <|
    (parses_uint32 _).then <| (parses_uint32 _).then <| (parses_uint32 _).then <|
    (parses_plain_array parses_uint32).then <| (parses_plain_array parses_uint32).then <|
    (parses_uint32 _).then <| (parses_uint32 _).map (by simp)

instance (r : Recurrencepattern) : Plain (pushRecurrencepattern r) := by
  unfold pushRecurrencepattern
  infer_instance

section

variable {α β : Type} {p : Pull α} {push : α → Emit} {good : α → Prop}

lemma parses_pushIf {c : Prop} [Decidable c] {a : Option α}
    (h : ∀ v ∈ a, Parses p (push v) v (good v)) :
    Parses (pullIf c p) (pushIf c push a) a (FieldFits c good a) := by
  unfold pullIf pushIf FieldFits
  split_ifs with hc
  · cases a with
    | none => exact Parses.of_none rfl
    | some v => exact ((h v rfl).map (f := some) (by simp)).congr (by simp [hc])
  · have hnone : Parses (pure none : Pull (Option α)) .nothing none True := by
      apply Parses.of_run
      rintro _ ⟨⟩ b off hb hat
      rfl
    refine hnone.only.congr ?_
    cases a with
    | none => simp [hc]
    | some v => simp [hc]

/-- What follows the last part reads nothing. -/
lemma Parses.then_nothing {k : α → Pull β} {e : Emit} {a : α} {c : β} {g : Prop} [hplain : Plain e]
    (h : Parses p e a True) (h' : Parses (k a) .nothing c g) : Parses (p >>= k) e c g := by
  intro bs hbs b off hb hat t
  have hnil : At b (off + bs.length) [] := (at_append.mp (by rwa [List.append_nil])).2
  rw [run_then_of (h.run hbs hb hat), h' [] rfl b _ hb hnil]
  simp [Emit.Near, hplain.near]

/-- A field that the whole has kept comes first. -/
lemma Parses.flag {c : Prop} [Decidable c] {a : Option α} {k : Option α → Pull β} {e : Emit}
    {r : β} {g : Prop} (h : ∀ v ∈ a, Parses p (push v) v (good v))
    (hdet : ∀ a', Returns (k a') r → a' = a) (h' : Parses (k a) e r g) :
    Parses (pullIf c p >>= k) (.seq (pushIf c push a) e) r (FieldFits c good a ∧ g) :=
  (parses_pushIf h).bind h' hdet

end

lemma parses_countedText (text : CString) :
    Parses pullCountedText (pushCountedText text) text (TextFits text) := by
  unfold pullCountedText pushCountedText TextFits
  dsimp only
  have hlen : (UInt16.ofNat text.bytes.length).toNat = text.bytes.length % 2 ^ 16 :=
    UInt16.toNat_ofNat'
  have hone : (UInt16.ofNat text.bytes.length + 1).toNat = (text.bytes.length + 1) % 2 ^ 16 := by
    rw [UInt16.toNat_add, hlen]
    simp only [UInt16.reduceToNat]
    omega
  refine (parses_uint16 _).then <| (parses_uint16 _).then ?_
  rw [hone, hlen]
  split_ifs with hwrap
  · intro bs hbs b off hb hat t
    refine ⟨fun hr => ?_, fun hg => absurd hg.1.1 (by omega)⟩
    obtain ⟨e, -⟩ := returns_of_run hr
    exact e.elim
  · apply Parses.allocated
    have hread : Parses (do
        let text ← pullBytes (UInt16.ofNat text.bytes.length).toUInt32
        pure (CString.of text)) (.bytes (text.bytes.take (text.bytes.length % 2 ^ 16)))
        (.of (text.bytes.take (text.bytes.length % 2 ^ 16))) True := by
      refine (parses_bytes ?_).last rfl
      rw [UInt16.toNat_toUInt32, hlen, List.length_take]
      omega
    refine hread.only.congr ⟨fun heq => ?_, fun hlt => ?_⟩
    · by_contra hlong
      have hcut := congrArg (fun s : CString => s.bytes.length) heq
      have hle : (CString.of (text.bytes.take (text.bytes.length % 2 ^ 16))).bytes.length ≤
          (text.bytes.take (text.bytes.length % 2 ^ 16)).length :=
        (List.takeWhile_prefix _).length_le
      rw [List.length_take] at hle
      omega
    · rw [Nat.mod_eq_of_lt (by omega), List.take_length, CString.of_eq]

lemma parses_exceptioninfo (r : Exceptioninfo) :
    Parses pullExceptioninfo (pushExceptioninfo r) r (ExceptioninfoFits r) := by
  have htext : ∀ a : Option CString, ∀ s ∈ a, Parses pullCountedText (pushCountedText s) s
      (TextFits s) := fun _ s _ => parses_countedText s
  have hword : ∀ a : Option UInt32, ∀ v ∈ a, Parses pullUint32 (pushUint32 v) v True :=
    fun _ v _ => parses_uint32 v
  unfold pullExceptioninfo pushExceptioninfo
  refine (parses_uint32 _).then <| (parses_uint32 _).then <| (parses_uint32 _).then <|
    (parses_uint16 _).then <| Parses.flag (htext _) ?_ <| Parses.flag (hword _) ?_ <|
    Parses.flag (hword _) ?_ <| Parses.flag (hword _) ?_ <| Parses.flag (htext _) ?_ <|
    Parses.flag (hword _) ?_ <| Parses.flag (hword _) ?_ <| Parses.flag (hword _) ?_ <|
    (parses_pushIf (hword _)).map (by simp)
  -- whatever is read for a field is found in the whole
  all_goals
    intro v hv
    repeat obtain ⟨_, -, hv⟩ := returns_bind.mp hv
    rw [returns_pure] at hv
    rw [hv]

lemma parses_changehighlight (r : Changehighlight) :
    Parses pullChangehighlight (pushChangehighlight r) r True := by
  obtain ⟨size, value, preserved⟩ := r
  unfold pullChangehighlight pushChangehighlight
  refine (parses_uint32 _).then <| (parses_uint32 _).then ?_
  dsimp only
  split_ifs with hsmall hlen
  · exact Parses.of_none rfl
  · rw [← hlen]
    exact (parses_sized preserved).map (by simp)
  · exact Parses.of_none rfl

lemma parses_exbinary (pb : Bytes) : Parses pullExbinary (pushExbinary pb) pb True := by
  unfold pullExbinary pushExbinary
  split_ifs with h32
  · exact Parses.of_none rfl
  · refine (parses_uint32 _).then ?_
    rw [UInt32.toNat_ofNat_lt (by omega)]
    exact parses_sized pb

instance (pb : Bytes) : Plain (pushExbinary pb) where
  near rest := by
    unfold pushExbinary
    split_ifs
    · trivial
    · exact ⟨trivial, trivial⟩

lemma parses_countedWtext (hconv : x.iconv.Lawful) (text : CString) :
    Parses (pullCountedWtext x) (pushCountedWtext x text) text (WtextFits x text) := by
  unfold pullCountedWtext pushCountedWtext WtextFits
  cases hw : x.iconv.toUtf16 text with
  | none => exact Parses.of_none rfl
  | some w =>
    dsimp only
    split_ifs with hroom
    · exact Parses.of_none rfl
    have hbound : w.length + 2 < 2 ^ 17 := by
      have := (UInt16.ofNat (text.bytes.length + 1)).toNat_lt
      omega
    have heven := (hconv.units hw).even
    have hdouble : (UInt16.ofNat (w.length / 2) * 2).toNat = w.length % 2 ^ 16 := by
      rw [UInt16.toNat_mul, UInt16.toNat_ofNat']
      simp only [UInt16.reduceToNat]
      omega
    have hwrap : UInt16.ofNat (w.length / 2) * 2 + 2 = 0 ↔ (w.length + 2) % 2 ^ 16 = 0 := by
      rw [← UInt16.toNat_inj, UInt16.toNat_add, hdouble]
      simp only [UInt16.reduceToNat]
      omega
    simp only [Option.some.injEq, exists_eq_left']
    refine (parses_uint16 _).then (Parses.allocated ?_)
    by_cases hlong : 2 ^ 16 ≤ w.length
    · -- only the first units are read
      intro bs hbs b off hb hat t
      cases hbs
      refine ⟨fun hr => ?_, fun hg => absurd hg.1.1 (by omega)⟩
      rw [← List.take_append_drop (w.length % 2 ^ 16) w] at hat
      have hread : b.run (pullBytes (UInt16.ofNat (w.length / 2) * 2).toUInt32) off =
          .ok (w.take (w.length % 2 ^ 16), _) :=
        run_readBytes (at_append.mp hat).1 (by
          rw [UInt16.toNat_toUInt32, hdouble, List.length_take]
          omega)
      rw [run_then_of hread, if_neg (mt hwrap.mp (by omega))] at hr
      cases hs : x.iconv.toUtf8 (w.take (w.length % 2 ^ 16)) with
      | none =>
        rw [hs] at hr
        obtain ⟨e, -⟩ := returns_of_run hr
        exact e.elim
      | some s =>
        rw [hs] at hr
        obtain ⟨_, -, hret⟩ := returns_bind.mp (returns_of_run hr)
        rw [returns_pure] at hret
        subst hret
        have hunits : Units (w.take (2 * (w.length % 2 ^ 16 / 2))) := (hconv.units hw).take _
        rw [show 2 * (w.length % 2 ^ 16 / 2) = w.length % 2 ^ 16 by omega] at hunits
        have hsame := (hconv.toUtf16_toUtf8 hunits hs).symm.trans hw
        have hlen := congrArg List.length (Option.some.inj hsame)
        rw [List.length_take] at hlen
        omega
    · refine (parses_bytes (by rw [UInt16.toNat_toUInt32, hdouble]; omega)).then_nothing ?_
      by_cases hraw : w.length + 2 = 2 ^ 16
      · rw [if_pos (hwrap.mpr (by omega))]
        have hread : Parses (do
            alloc
            pure (CString.of w)) .nothing (.of w) True := by
          apply Parses.allocated
          apply Parses.of_run
          rintro _ ⟨⟩ b off hb hat
          rfl
        exact hread.only.congr (by simp [hraw])
      · rw [if_neg (mt hwrap.mp (by omega)), hconv.toUtf8_toUtf16 hw]
        have hread : Parses (do
            alloc
            pure text) .nothing text True := by
          apply Parses.allocated
          apply Parses.of_run
          rintro _ ⟨⟩ b off hb hat
          rfl
        exact hread.congr (iff_of_true trivial (.inl (by omega)))

lemma parses_extendedexception (hconv : x.iconv.Lawful) (writerversion2 : UInt32)
    (overrideflags : UInt16) (r : Extendedexception) :
    Parses (pullExtendedexception x writerversion2 overrideflags)
      (pushExtendedexception x writerversion2 overrideflags r) r
      (ExtendedexceptionFits x writerversion2 overrideflags r) := by
  have hword : ∀ a : Option UInt32, ∀ v ∈ a, Parses pullUint32 (pushUint32 v) v True :=
    fun _ v _ => parses_uint32 v
  have htext : ∀ a : Option CString, ∀ s ∈ a, Parses (pullCountedWtext x) (pushCountedWtext x s) s
      (WtextFits x s) := fun _ s _ => parses_countedWtext hconv s
  unfold pullExtendedexception pushExtendedexception ExtendedexceptionFits
  refine Parses.flag (fun v _ => parses_changehighlight v) ?_ <|
    (parses_exbinary _).then <| Parses.flag (hword _) ?_ <| Parses.flag (hword _) ?_ <|
    Parses.flag (hword _) ?_ <| Parses.flag (htext _) ?_ <| Parses.flag (htext _) ?_ <|
    (parses_pushIf (fun v _ => parses_exbinary v)).map (by simp)
  -- whatever is read for a field is found in the whole
  all_goals
    intro v hv
    repeat obtain ⟨_, -, hv⟩ := returns_bind.mp hv
    rw [returns_pure] at hv
    rw [hv]

/-! What is read for a value is not shorter than what is written for it. -/

/-- `a` is not read from fewer than `n` bytes. -/
def Takes {α : Type} (p : Pull α) (a : α) (n : ℕ) : Prop :=
  ∀ (b : Input) (off t : ℕ), b.run p off = .ok (a, t) → off + n ≤ t

/-- A text is converted from no fewer units than it is converted to. -/
def Iconv.Shortest (c : Iconv) : Prop :=
  ∀ s w v, c.toUtf16 s = some w → c.toUtf8 v = some s → w.length ≤ v.length

section

variable {α β : Type} {p : Pull α} {a : α} {n m : ℕ}

lemma Takes.bind {k : α → Pull β} {c : β} (h : Takes p a n) (h' : Takes (k a) c m)
    (hdet : ∀ a', Returns (k a') c → a' = a) : Takes (p >>= k) c (n + m) := by
  intro b off t hr
  obtain ⟨a', u, hu, ht⟩ := run_then.mp hr
  obtain rfl := hdet a' (returns_of_run ht)
  have := h b off u hu
  have := h' b u t ht
  omega

/-- A part that the whole does not keep comes first. -/
lemma Takes.after {k : α → Pull β} {c : β} (h : ∀ a, Takes p a n) (h' : ∀ a, Takes (k a) c m) :
    Takes (p >>= k) c (n + m) := by
  intro b off t hr
  obtain ⟨a', u, hu, ht⟩ := run_then.mp hr
  have := h a' b off u hu
  have := h' a' b u t ht
  omega

lemma takes_pure (a : α) : Takes (pure a) a 0 := by
  intro b off t hr
  rw [run_ret] at hr
  cases hr
  exact le_rfl

lemma Takes.map {f : α → β} (h : Takes p a n) (hinj : ∀ a', f a = f a' → a' = a) :
    Takes (do
      let v ← p
      pure (f v)) (f a) n :=
  Takes.bind (m := 0) h (takes_pure (f a)) fun a' ha => hinj a' (returns_pure.mp ha)

lemma takes_fixed {f : Bytes → α} (n : ℕ) (a : α) : Takes (do
    let v ← readFixed n
    pure (f v)) a n := by
  intro b off t hr
  obtain ⟨v, u, hu, ht⟩ := run_then.mp hr
  rw [run_ret] at ht
  cases ht
  rw [readFixed, run_op_eq] at hu
  simp only [exec] at hu
  split_ifs at hu
  · cases hu
  · unfold Input.fetch at hu
    split_ifs at hu
    · cases hu
      exact le_rfl
    · cases hu

lemma takes_uint16 (v : UInt16) : Takes pullUint16 v 2 := takes_fixed 2 v

lemma takes_uint32 (v : UInt32) : Takes pullUint32 v 4 := takes_fixed 4 v

lemma takes_readBytes (cb : ℕ) (bs : Bytes) : Takes (readBytes cb) bs bs.length := by
  intro b off t hr
  rw [run_readBytes_length hr]
  have hsize := b.size_lt
  change b.size < 2 ^ 32 at hsize
  rw [readBytes, run_op_eq] at hr
  simp only [exec] at hr
  split_ifs at hr
  · cases hr
  · unfold Input.fetch at hr
    split_ifs at hr with hle
    · cases hr
      rw [Nat.mod_eq_of_lt (by omega)]
    · cases hr

lemma Takes.allocated (h : Takes p a n) : Takes (do alloc; p) a n := by
  intro b off t hr
  obtain ⟨_, u, hu, ht⟩ := run_then.mp hr
  rw [alloc, run_op_eq] at hu
  simp only [exec] at hu
  split_ifs at hu
  · cases hu
    exact h b off t ht
  · cases hu

lemma takes_sized (cb : ℕ) (pb : Bytes) : Takes (pullSized cb) pb pb.length := by
  unfold pullSized
  split_ifs
  · intro b off t hr
    rw [run_ret] at hr
    cases hr
    exact le_rfl
  · exact (takes_readBytes cb pb).allocated

lemma takes_exbinary (pb : Bytes) : Takes pullExbinary pb (pushExbinary pb).size := by
  have h : Takes pullExbinary pb (4 + pb.length) :=
    Takes.after takes_uint32 fun cb => takes_sized cb.toNat pb
  unfold pushExbinary
  intro b off t hr
  have := h b off t hr
  split_ifs
  · simp only [Emit.size]
    omega
  · simp only [Emit.size, pushUint32, length_le]
    omega

lemma takes_if {c : Prop} [Decidable c] {push : α → Emit} {a : Option α}
    (h : ∀ v ∈ a, Takes p v (push v).size) : Takes (pullIf c p) a (pushIf c push a).size := by
  unfold pullIf pushIf
  split_ifs
  · cases a with
    | none =>
      intro b off t hr
      obtain ⟨v, -, hv⟩ := returns_bind.mp (returns_of_run hr)
      cases hv
    | some v => exact (h v rfl).map (f := some) (by simp)
  · intro b off t hr
    rw [run_ret] at hr
    cases hr
    exact le_rfl

end

lemma takes_changehighlight (r : Changehighlight) :
    Takes pullChangehighlight r (pushChangehighlight r).size := by
  have h : Takes pullChangehighlight r (4 + (4 + r.preserved.length)) := by
    obtain ⟨size, value, preserved⟩ := r
    unfold pullChangehighlight
    refine Takes.after takes_uint32 fun size' => Takes.after takes_uint32 fun value' => ?_
    split_ifs
    · intro b off t hr
      obtain ⟨e, -⟩ := returns_of_run hr
      exact e.elim
    · intro b off t hr
      have hret := returns_of_run hr
      simp only [returns_bind, returns_pure, Changehighlight.mk.injEq] at hret
      obtain ⟨_, -, rfl, rfl, -⟩ := hret
      exact ((takes_sized _ preserved).map (f := fun bs => Changehighlight.mk size value bs)
        (by simp)) b off t hr
  unfold pushChangehighlight
  intro b off t hr
  have := h b off t hr
  split_ifs <;> simp only [Emit.size, pushUint32, length_le] <;> omega

/-- The units of a text have room in 16 bits. -/
def UnitsFit (x : Setup) (text : CString) : Prop :=
  ∀ w, x.iconv.toUtf16 text = some w → w.length + 2 ≤ 2 ^ 16

lemma takes_countedWtext (hshort : x.iconv.Shortest) {text : CString} (hfit : UnitsFit x text) :
    Takes (pullCountedWtext x) text (pushCountedWtext x text).size := by
  have h : Takes (pullCountedWtext x) text (2 + (x.iconv.toUtf16 text).elim 0 List.length) := by
    unfold pullCountedWtext
    refine Takes.after takes_uint16 fun tmpLen => Takes.allocated ?_
    intro b off t hr
    obtain ⟨pbuff, u, hu, ht⟩ := run_then.mp hr
    have hread := takes_readBytes _ pbuff b off u hu
    have hlen := run_readBytes_length hu
    split at ht
    · obtain ⟨e, -⟩ := returns_of_run ht
      exact e.elim
    · rename_i s hs
      obtain ⟨_, -, hret⟩ := returns_bind.mp (returns_of_run ht)
      rw [returns_pure] at hret
      subst hret
      have hend : Takes (pure text : Pull CString) text 0 := takes_pure text
      have hle := hend.allocated b u t ht
      suffices (x.iconv.toUtf16 text).elim 0 List.length ≤ pbuff.length by omega
      cases hw : x.iconv.toUtf16 text with
      | none => exact Nat.zero_le _
      | some w =>
        change w.length ≤ _
        split_ifs at hs with hwrap
        · have hwrap := congrArg UInt16.toNat hwrap
          have hfit := hfit w hw
          rw [UInt16.toNat_toUInt32] at hlen
          rw [UInt16.toNat_add] at hwrap
          simp only [UInt16.reduceToNat] at hwrap
          have := (tmpLen * 2).toNat_lt
          omega
        · exact hshort text w pbuff hw hs
  unfold pushCountedWtext
  intro b off t hr
  have hle := h b off t hr
  cases hw : x.iconv.toUtf16 text with
  | none =>
    simp only [Emit.size]
    omega
  | some w =>
    rw [hw] at hle
    change _ + (2 + w.length) ≤ t at hle
    dsimp only
    split_ifs
    · simp only [Emit.size]
      omega
    · simp only [Emit.size, pushUint16, length_le]
      omega

lemma takes_extendedexception (hshort : x.iconv.Shortest) (writerversion2 : UInt32)
    (overrideflags : UInt16) {r : Extendedexception}
    (hfit : ∀ s, s ∈ r.subject ∨ s ∈ r.location → UnitsFit x s) :
    Takes (pullExtendedexception x writerversion2 overrideflags) r
      (pushExtendedexception x writerversion2 overrideflags r).size := by
  have hword : ∀ a : Option UInt32, ∀ v ∈ a, Takes pullUint32 v (pushUint32 v).size :=
    fun _ v _ => takes_uint32 v
  unfold pullExtendedexception pushExtendedexception
  simp only [Emit.size]
  refine Takes.bind (takes_if fun v _ => takes_changehighlight v) (Takes.bind (takes_exbinary _) (
    Takes.bind (takes_if (hword _)) (Takes.bind (takes_if (hword _)) (
    Takes.bind (takes_if (hword _)) (
    Takes.bind (takes_if fun s hs => takes_countedWtext hshort (hfit s (.inl hs))) (
    Takes.bind (takes_if fun s hs => takes_countedWtext hshort (hfit s (.inr hs))) (
    Takes.map (takes_if fun v _ => takes_exbinary v) (by simp)) ?_) ?_) ?_) ?_) ?_) ?_) ?_
  all_goals
    intro v hv
    repeat obtain ⟨_, -, hv⟩ := returns_bind.mp hv
    rw [returns_pure] at hv
    rw [hv]

lemma takes_cells {α β : Type} {f : α → Pull β} {push : α → β → Emit} {columns : List α}
    {l : List β} (h : ∀ c, ∀ v ∈ l, Takes (f c) v (push c v).size) :
    Takes (forEach f columns) l (pushCells push columns l).size := by
  induction columns generalizing l with
  | nil =>
    cases l with
    | nil => exact takes_pure []
    | cons v l =>
      intro b off t hr
      cases returns_of_run hr
  | cons c columns ih =>
    cases l with
    | nil =>
      intro b off t hr
      obtain ⟨v, -, hv⟩ := returns_bind.mp (returns_of_run hr)
      obtain ⟨l, -, hl⟩ := returns_bind.mp hv
      cases hl
    | cons v l =>
      have htail := (ih fun c' v' hv' => h c' v' (.tail v hv')).map (f := (v :: ·)) (by simp)
      refine Takes.bind (h c v (.head l)) htail ?_
      intro v' hv'
      obtain ⟨m, -, hm⟩ := returns_bind.mp hv'
      rw [returns_pure, List.cons.injEq] at hm
      exact hm.1.symm

/-! The whole pattern. -/

/-- On the encoding of `em` at the end of the data, `p` returns `a` and has read all of it exactly
if `good` holds and the end is near. -/
def Closes {α : Type} (p : Pull α) (em : Emit) (a : α) (good : Prop) : Prop :=
  ∀ bs, em.encoding = some bs → ∀ b off, Granted b → At b off bs → b.size = off + bs.length →
    (b.run p off = .ok (a, b.size) ↔ good ∧ em.Near bs.length)

section

variable {α β : Type} {p : Pull α} {em : Emit} {a : α} {g : Prop}

lemma Parses.closes (h : Parses p em a g) : Closes p em a g := by
  intro bs hbs b off hb hat hend
  rw [h bs hbs b off hb hat, hend, and_iff_left rfl, Nat.add_sub_cancel_left]

lemma Closes.bind {k : α → Pull β} {e e' : Emit} {c : β} {g' : Prop} (h : Parses p e a g)
    (h' : Closes (k a) e' c g') (hdet : ∀ a', Returns (k a') c → a' = a) :
    Closes (p >>= k) (.seq e e') c (g ∧ g') := by
  intro bs hbs b off hb hat hend
  obtain ⟨cs, ds, hcs, hds, rfl⟩ := encoding_seq.mp hbs
  obtain ⟨hat, hat'⟩ := at_append.mp hat
  rw [List.length_append] at hend ⊢
  have hp := h cs hcs b off hb hat
  have hk := h' ds hds b _ hb hat' (by omega)
  have hrest : b.size - off = cs.length + ds.length := by omega
  rw [run_then, Emit.Near, ← length_encoding hcs, Nat.add_sub_cancel_left]
  rw [hrest] at hp
  constructor
  · rintro ⟨a', u, hu, ht⟩
    obtain rfl := hdet a' (returns_of_run ht)
    obtain ⟨⟨hg, hn⟩, rfl⟩ := (hp u).mp hu
    obtain ⟨hg', hn'⟩ := hk.mp ht
    exact ⟨⟨hg, hg'⟩, hn, hn'⟩
  · rintro ⟨⟨hg, hg'⟩, hn, hn'⟩
    exact ⟨a, _, (hp _).mpr ⟨⟨hg, hn⟩, rfl⟩, hk.mpr ⟨hg', hn'⟩⟩

lemma Closes.then {k : α → Pull β} {e e' : Emit} {c : β} {g' : Prop} [hplain : Plain e]
    (h : Parses p e a True) (h' : Closes (k a) e' c g') : Closes (p >>= k) (.seq e e') c g' := by
  intro bs hbs b off hb hat hend
  obtain ⟨cs, ds, hcs, hds, rfl⟩ := encoding_seq.mp hbs
  obtain ⟨hat, hat'⟩ := at_append.mp hat
  rw [List.length_append] at hend ⊢
  rw [run_then_of (h.run hcs hb hat), h' ds hds b _ hb hat' (by omega), Emit.Near,
    ← length_encoding hcs, Nat.add_sub_cancel_left, and_iff_right (hplain.near _)]

lemma Closes.congr {g' : Prop} (h : Closes p em a g) (hg : g ↔ g') : Closes p em a g' := by
  rwa [← propext hg]

lemma Closes.of_none (h : em.encoding = none) : Closes p em a g := by
  intro bs hbs
  rw [h] at hbs
  cases hbs

/-- A value that takes more than has been written is not read from it. -/
lemma Closes.of_takes {n : ℕ} (h : Takes p a n) (hn : em.size < n) : Closes p em a False := by
  intro bs hbs b off hb hat hend
  rw [length_encoding hbs] at hend
  refine ⟨fun hr => ?_, fun hg => hg.1.elim⟩
  have := h b off _ hr
  omega

lemma Closes.restores_iff (h : Closes p em a g) {bs : Bytes} (hbs : em.encoding = some bs)
    (hlt : bs.length < 2 ^ 32) : Restores (fun _ => p) bs a ↔ g ∧ em.Near em.size := by
  have hrun : ∀ b : Input, Granted b → b.data = bs →
      (b.run p 0 = .ok (a, bs.length) ↔ g ∧ em.Near em.size) := by
    intro b hb hdata
    have hsize : b.size = bs.length := by rw [Input.size, hdata]
    have hp := h bs hbs b 0 hb ⟨[], [], by simp [hdata], rfl⟩ (by omega)
    rw [hsize] at hp
    rw [hp, length_encoding hbs]
  constructor
  · rintro ⟨enough, hp⟩
    exact (hrun ⟨bs, hlt, fun _ => true⟩ (fun _ => rfl) rfl).mp (hp enough le_rfl _ (fun _ => rfl) rfl)
  · intro hgood
    exact ⟨0, fun depth _ b hb hdata => (hrun b hb hdata).mpr hgood⟩

end

lemma parses_noBlock : Parses pullExbinary (pushUint32 0) [] True := (parses_uint32 0).last rfl

/-- The texts of the extended exceptions have units that fit 16 bits. -/
def TextsFit (x : Setup) (r : Appointmentrecurrencepattern) : Prop :=
  ∀ ext ∈ r.pextendedexception, ∀ s, s ∈ ext.subject ∨ s ∈ ext.location → UnitsFit x s

/-- From the first reserved block on: where it is not empty, what follows is too short. -/
lemma closes_blocks (hconv : x.iconv.Lawful) (hshort : x.iconv.Shortest)
    (r : Appointmentrecurrencepattern) (h32 : r.preservedblock1.length < 2 ^ 32)
    (htexts : r.preservedblock1 = [] ∨ TextsFit x r) :
    Closes (do
      let preservedblock1 ← pullExbinary
      let pextendedexception ← forEach (fun info : Exceptioninfo =>
        pullExtendedexception x r.writerversion2 info.overrideflags) r.pexceptioninfo
      let preservedblock2 ← pullExbinary
      pure { r with preservedblock1, pextendedexception, preservedblock2 })
      (.seq (pushUint32 (.ofNat r.preservedblock1.length)) <|
        .seq (pushCells (fun info : Exceptioninfo =>
          pushExtendedexception x r.writerversion2 info.overrideflags) r.pexceptioninfo
          r.pextendedexception)
        (pushExbinary r.preservedblock2)) r
      (r.preservedblock1 = [] ∧ List.Forall₂ (fun info : Exceptioninfo =>
        ExtendedexceptionFits x r.writerversion2 info.overrideflags) r.pexceptioninfo
        r.pextendedexception) := by
  obtain ⟨rp, a, b, c, d, infos, block1, exts, block2⟩ := r
  dsimp only at h32 htexts ⊢
  by_cases hblock : block1 = []
  · subst hblock
    rw [and_iff_right rfl]
    refine Closes.then parses_noBlock (Parses.closes ?_)
    refine ((parses_cells fun info ext _ => parses_extendedexception hconv _ _ ext).bind
      ((parses_exbinary block2).map (by simp)) ?_).congr (and_iff_left trivial)
    intro exts' hexts
    simp only [returns_bind, returns_pure, Appointmentrecurrencepattern.mk.injEq] at hexts
    obtain ⟨_, -, hexts⟩ := hexts
    exact hexts.2.2.2.2.2.2.2.1.symm
  · have htexts := htexts.resolve_left hblock
    rw [iff_false_intro hblock, false_and]
    refine Closes.of_takes (n := (pushExbinary block1).size + ((pushCells (fun info : Exceptioninfo =>
      pushExtendedexception x b info.overrideflags) infos exts).size +
      (pushExbinary block2).size)) ?_ ?_
    · refine Takes.bind (takes_exbinary block1) (Takes.bind (takes_cells fun info ext hext =>
        takes_extendedexception hshort _ _ (htexts ext hext))
        (Takes.map (takes_exbinary block2) (by simp)) ?_) ?_
      all_goals
        intro v hv
        repeat obtain ⟨_, -, hv⟩ := returns_bind.mp hv
        rw [returns_pure, Appointmentrecurrencepattern.mk.injEq] at hv
        simp [hv]
    · have hpos : 0 < block1.length := List.length_pos_of_ne_nil hblock
      have hsize : (pushExbinary block1).size = 4 + block1.length := by
        rw [pushExbinary, if_neg (by omega)]
        simp only [Emit.size, pushUint32, length_le]
      simp only [Emit.size, pushUint32, length_le, hsize]
      omega

lemma closes_pattern (hconv : x.iconv.Lawful) (hshort : x.iconv.Shortest)
    (r : Appointmentrecurrencepattern) (htexts : r.preservedblock1 = [] ∨ TextsFit x r) :
    Closes (pullAppointmentrecurrencepattern x) (pushAppointmentrecurrencepattern x r) r
      (r.preservedblock1 = [] ∧ ExceptionsFit x r) := by
  unfold pullAppointmentrecurrencepattern pushAppointmentrecurrencepattern ExceptionsFit
  refine Closes.then (parses_recurrencepattern _) <| Closes.then (parses_uint32 _) <|
    Closes.then (parses_uint32 _) <| Closes.then (parses_uint32 _) <|
    Closes.then (parses_uint32 _) ?_
  split_ifs with hlarge
  · exact Closes.of_none rfl
  push Not at hlarge
  refine Closes.then (parses_uint16 _) ?_
  rw [UInt16.toNat_ofNat_lt hlarge.1]
  have hinfos : Parses (pullElements pullExceptioninfo r.pexceptioninfo.length)
      (pushEach pushExceptioninfo r.pexceptioninfo) r.pexceptioninfo
      (∀ info ∈ r.pexceptioninfo, ExceptioninfoFits info) :=
    (Parses.elements fun info _ => parses_exceptioninfo info).congr (by simp)
  refine Closes.congr (Closes.bind hinfos (closes_blocks hconv hshort r hlarge.2 htexts) ?_)
    and_left_comm
  intro infos hinfos
  repeat obtain ⟨_, -, hinfos⟩ := returns_bind.mp hinfos
  rw [returns_pure] at hinfos
  rw [hinfos]

/-- **Recurrence patterns that are read back.** Where the push of a pattern succeeds, it is undone
exactly if all of the pattern has been written and fits, and its first reserved block is empty; for
one that is not this needs the texts to have units that fit 16 bits. -/
theorem recurrence_undone_iff (hconv : x.iconv.Lawful) (hshort : x.iconv.Shortest) {cap off : ℕ}
    (hcap : cap < 2 ^ 32) (hoff : off ≤ cap) (r : Appointmentrecurrencepattern)
    (htexts : r.preservedblock1 = [] ∨ TextsFit x r)
    (hs : ((pushAppointmentrecurrencepattern x r).run cap off).status = .success) :
    Undone (fun _ => pullAppointmentrecurrencepattern x)
      ((pushAppointmentrecurrencepattern x r).run cap off) r ↔
      Sound cap off (pushAppointmentrecurrencepattern x r)
        (r.preservedblock1 = [] ∧ ExceptionsFit x r) := by
  unfold Undone Sound
  rw [← and_assoc, ← hidden_eq_false_iff hcap hoff hs, and_congr_right_iff]
  intro hh
  have hle := length_run_le (pushAppointmentrecurrencepattern x r) hoff
  exact (closes_pattern hconv hshort r htexts).restores_iff (encoding_of_run hs hh) (by omega)

lemma asciiIconv_shortest : asciiIconv.Shortest := by
  intro s w v hw hs
  obtain ⟨bytes, hn, rfl⟩ := Option.map_eq_some_iff.mp hs
  obtain ⟨hwide, hunits, -⟩ := widen_narrow hn
  have hv := asciiIconv_lawful.toUtf16_toUtf8 hunits hs
  rw [Option.some.inj (hw.symm.trans hv)]

/-- Every day from a date on, with one exception that has a subject, and a first reserved block. -/
def dailyPattern (preservedblock1 : Bytes) : Appointmentrecurrencepattern where
  recurrencepattern := ⟨0x3004, 0x3004, 0x200A, 0, 0, 0, 1440, 0, .day, 0x2022, 10, 0, [], [], 0, 0⟩
  readerversion2 := 0x3006
  writerversion2 := 0x3009
  starttimeoffset := 600
  endtimeoffset := 660
  pexceptioninfo := [⟨0, 0, 0, 1, some (.of [0x41]), none, none, none, none, none, none, none, none⟩]
  preservedblock1
  pextendedexception :=
    [⟨some ⟨4, 0, []⟩, [], some 0, some 0, some 0, some (.of [0x41]), none, some []⟩]
  preservedblock2 := []

theorem recurrence_undone_iff_daily : Undone (fun _ => pullAppointmentrecurrencepattern unicodeSetup)
    ((pushAppointmentrecurrencepattern unicodeSetup (dailyPattern [])).run 256 0)
    (dailyPattern []) := by
  refine (recurrence_undone_iff (x := unicodeSetup) asciiIconv_lawful asciiIconv_shortest (by decide)
    (by decide) (dailyPattern []) (.inl rfl) (by decide)).mpr
    ⟨by decide, by decide, ⟨rfl, ?_, .cons ?_ .nil⟩, by decide⟩
  · intro info hinfo
    obtain rfl := List.mem_singleton.mp hinfo
    have hnone : ∀ {α : Type} {c : Prop} {good : α → Prop}, ¬ c → FieldFits c good none :=
      fun hc => ⟨by simpa using hc, by simp⟩
    refine ⟨⟨by decide, fun s hs => ?_⟩, hnone (by decide), hnone (by decide), hnone (by decide),
      hnone (by decide), hnone (by decide), hnone (by decide), hnone (by decide), hnone (by decide)⟩
    cases hs
    change 1 < 65535
    decide
  · refine ⟨⟨by decide, fun _ _ => trivial⟩, ⟨by decide, fun _ _ => trivial⟩,
      ⟨by decide, fun _ _ => trivial⟩, ⟨by decide, fun _ _ => trivial⟩, ⟨by decide, fun s hs => ?_⟩,
      ⟨by decide, by simp⟩, ⟨by decide, fun _ _ => trivial⟩⟩
    cases hs
    exact ⟨[0x41, 0], by decide, .inl (by decide)⟩

/-- The one byte of a first reserved block is not written. -/
theorem not_recurrence_undone : ¬ ∀ (x : Setup) (cap off : ℕ) (r : Appointmentrecurrencepattern),
    x.iconv.Lawful → cap < 2 ^ 32 → off ≤ cap →
    ((pushAppointmentrecurrencepattern x r).run cap off).status = .success →
    Undone (fun _ => pullAppointmentrecurrencepattern x)
      ((pushAppointmentrecurrencepattern x r).run cap off) r := by
  intro h
  have hs : ((pushAppointmentrecurrencepattern unicodeSetup (dailyPattern [7])).run 256 0).status =
      .success := by decide
  have hundone := h unicodeSetup 256 0 (dailyPattern [7]) asciiIconv_lawful (by decide) (by decide) hs
  have htexts : TextsFit unicodeSetup (dailyPattern [7]) := by
    intro ext hext s hs w hw
    obtain rfl := List.mem_singleton.mp hext
    obtain hs | hs := hs
    · cases hs
      cases hw
      decide
    · cases hs
  have hfits := (recurrence_undone_iff asciiIconv_lawful asciiIconv_shortest (by decide) (by decide)
    (dailyPattern [7]) (.inr htexts) hs).mp hundone
  exact absurd hfits.2.2.1.1 (by decide)

end SteepSystem.ExtBuffer
