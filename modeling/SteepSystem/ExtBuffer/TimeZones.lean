import SteepSystem.ExtBuffer.Structures
import SteepSystem.ExtBuffer.Rows

/-!
Time zones, pushed and pulled back. The year of a rule is written and is not read: it comes over
the flags, and the memory of the rule keeps what it held.
-/

namespace SteepSystem.ExtBuffer

open SteepSystem.Lib.Bytes SteepSystem.Lib.Programs SteepSystem.Lib.Programs.Program

variable (x : Setup)

def pushInt16 (v : Int16) : Emit := pushUint16 v.toUInt16

def pushInt32 (v : Int32) : Emit := pushUint32 v.toUInt32

def pushSystemtime (r : Systemtime) : Emit :=
  .seq (pushInt16 r.year) <| .seq (pushInt16 r.month) <| .seq (pushInt16 r.dayofweek) <|
    .seq (pushInt16 r.day) <| .seq (pushInt16 r.hour) <| .seq (pushInt16 r.minute) <|
    .seq (pushInt16 r.second) (pushInt16 r.milliseconds)

def pushTimezonestruct (r : Timezonestruct) : Emit :=
  .seq (pushInt32 r.bias) <| .seq (pushInt32 r.standardbias) <| .seq (pushInt32 r.daylightbias) <|
    .seq (pushInt16 r.standardyear) <| .seq (pushSystemtime r.standarddate) <|
    .seq (pushInt16 r.daylightyear) (pushSystemtime r.daylightdate)

def pushTzrule (r : Tzrule) : Emit :=
  .seq (pushUint8 r.major) <| .seq (pushUint8 r.minor) <| .seq (pushUint16 r.reserved) <|
    .seq (pushUint16 r.flags) <| .seq (pushInt16 r.year) <| .seq (pushBlock r.x) <|
    .seq (pushInt32 r.bias) <| .seq (pushInt32 r.standardbias) <|
    .seq (pushInt32 r.daylightbias) <| .seq (pushSystemtime r.standarddate)
    (pushSystemtime r.daylightdate)

/-- The key name is converted into a buffer of 262 bytes. -/
def pushTimezonedefinition (r : Timezonedefinition) : Emit :=
  .seq (pushUint8 r.major) <| .seq (pushUint8 r.minor) <|
    match x.iconv.toUtf16 r.keyname with
    | none => .fail .charcnv
    | some tmpBuff =>
      if 262 < tmpBuff.length + 2 then .fail .charcnv
      else
        .seq (pushUint16 (.ofNat (6 + tmpBuff.length))) <| .seq (pushUint16 r.reserved) <|
          .seq (pushUint16 (.ofNat (tmpBuff.length / 2))) <| .seq (.bytes tmpBuff)
          (pushSarray pushTzrule r.prules)

instance (v : Int16) : Plain (pushInt16 v) := ⟨fun _ => trivial⟩

instance (v : Int32) : Plain (pushInt32 v) := ⟨fun _ => trivial⟩

instance (r : Systemtime) : Plain (pushSystemtime r) := by
  unfold pushSystemtime
  infer_instance

instance (r : Timezonestruct) : Plain (pushTimezonestruct r) := by
  unfold pushTimezonestruct
  infer_instance

instance (r : Tzrule) : Plain (pushTzrule r) := by
  unfold pushTzrule
  infer_instance

lemma parses_int16 (v : Int16) : Parses pullInt16 (pushInt16 v) v True :=
  (parses_uint16 v.toUInt16).map (f := UInt16.toInt16) fun w hw => by
    rw [← UInt16.toUInt16_toInt16 w, ← hw, UInt16.toUInt16_toInt16]

lemma parses_int32 (v : Int32) : Parses pullInt32 (pushInt32 v) v True :=
  (parses_uint32 v.toUInt32).map (f := UInt32.toInt32) fun w hw => by
    rw [← UInt32.toUInt32_toInt32 w, ← hw, UInt32.toUInt32_toInt32]

lemma parses_systemtime (r : Systemtime) : Parses pullSystemtime (pushSystemtime r) r True := by
  obtain ⟨a, b, c, d, e, f, g, h⟩ := r
  unfold pullSystemtime pushSystemtime
  exact (parses_int16 _).then <| (parses_int16 _).then <| (parses_int16 _).then <|
    (parses_int16 _).then <| (parses_int16 _).then <| (parses_int16 _).then <|
    (parses_int16 _).then <| (parses_int16 _).map (by simp)

lemma parses_timezonestruct (r : Timezonestruct) :
    Parses pullTimezonestruct (pushTimezonestruct r) r True := by
  obtain ⟨a, b, c, d, e, f, g⟩ := r
  unfold pullTimezonestruct pushTimezonestruct
  exact (parses_int32 _).then <| (parses_int32 _).then <| (parses_int32 _).then <|
    (parses_int16 _).then <| (parses_systemtime _).then <| (parses_int16 _).then <|
    (parses_systemtime _).map (by simp)

/-- The flags are those that the year is read as, and the memory has the year already. -/
def TzruleFits (year : Int16) (r : Tzrule) : Prop := r.flags = r.year.toUInt16 ∧ year = r.year

instance (year : Int16) (r : Tzrule) : Decidable (TzruleFits year r) :=
  inferInstanceAs (Decidable (_ ∧ _))

lemma parses_tzrule (year : Int16) (r : Tzrule) :
    Parses (pullTzrule year) (pushTzrule r) r (TzruleFits year r) := by
  obtain ⟨major, minor, reserved, flags, y, block, bias, sbias, dbias, sdate, ddate⟩ := r
  have hread : Parses (pullTzrule year)
      (pushTzrule ⟨major, minor, reserved, flags, y, block, bias, sbias, dbias, sdate, ddate⟩)
      ⟨major, minor, reserved, y.toUInt16, year, block, bias, sbias, dbias, sdate, ddate⟩ True := by
    unfold pullTzrule pushTzrule
    exact (parses_uint8 _).then <| (parses_uint8 _).then <| (parses_uint16 _).then <|
      (parses_uint16 _).then <| (parses_int16 _).then <| (parses_block _).then <|
      (parses_int32 _).then <| (parses_int32 _).then <| (parses_int32 _).then <|
      (parses_systemtime _).then <| (parses_systemtime _).map (by simp)
  refine hread.only.congr ?_
  simp [TzruleFits, eq_comm]

/-- A program for each place of an array. -/
lemma Parses.places {α β : Type} {f : β → Pull α} {push : α → Emit} {good : β → α → Prop}
    {places : List β} {l : List α} (hlen : l.length = places.length)
    (h : ∀ i, ∀ v ∈ l, Parses (f i) (push v) v (good i v)) :
    Parses (forEach f places) (pushEach push l) l (List.Forall₂ good places l) := by
  have hcells : ∀ (places : List β) (l : List α), l.length = places.length →
      pushEach push l = pushCells (fun _ => push) places l := by
    intro places
    induction places with
    | nil =>
      intro l hl
      rw [List.length_eq_zero_iff.mp hl]
      rfl
    | cons i places ih =>
      intro l hl
      cases l with
      | nil => cases hl
      | cons v l => rw [pushEach, pushCells, ih l (Nat.succ.inj hl)]
  rw [hcells places l hlen]
  exact parses_cells h

lemma Units.even {w : Bytes} (h : Units w) : 2 * (w.length / 2) = w.length := by
  induction w using zeroUnit.induct with
  | case1 c d w hz => exact absurd hz h.1
  | case2 c d w hz ih =>
    have := ih h.2
    simp only [List.length_cons]
    omega
  | case3 w hw =>
    cases w with
    | nil => rfl
    | cons c w =>
      cases w with
      | nil => exact h.elim
      | cons d w => exact absurd rfl (hw c d w)

/-- Every rule of the array fits where it is read. -/
def TzrulesFit (years : ℕ → Int16) (prules : List Tzrule) : Prop :=
  ∀ i (h : i < prules.length), TzruleFits (years i) prules[i]

lemma parses_timezonedefinition (hconv : x.iconv.Lawful) (years : ℕ → Int16)
    (r : Timezonedefinition) :
    Parses (pullTimezonedefinition x years) (pushTimezonedefinition x r) r
      (TzrulesFit years r.prules) := by
  obtain ⟨major, minor, reserved, keyname, prules⟩ := r
  unfold pullTimezonedefinition pushTimezonedefinition
  refine (parses_uint8 _).then ((parses_uint8 _).then ?_)
  dsimp only
  cases hw : x.iconv.toUtf16 keyname with
  | none => exact Parses.of_none rfl
  | some w =>
    dsimp only
    by_cases hlong : 262 < w.length + 2
    · rw [if_pos hlong]
      exact Parses.of_none rfl
    rw [if_neg hlong]
    have hheader : (UInt16.ofNat (6 + w.length)).toNat = 6 + w.length :=
      UInt16.toNat_ofNat_lt (by omega)
    have hcount : (UInt16.ofNat (w.length / 2)).toNat = w.length / 2 :=
      UInt16.toNat_ofNat_lt (by omega)
    have heven := (hconv.units hw).even
    refine (parses_uint16 _).then ?_
    have hshort : ¬ 266 < UInt16.ofNat (6 + w.length) := by
      rw [UInt16.lt_iff_toNat_lt, hheader]
      simp only [UInt16.reduceToNat]
      omega
    rw [if_neg hshort]
    refine (parses_uint16 _).then ((parses_uint16 _).then ?_)
    rw [if_neg (by omega)]
    have hbytes : ((UInt16.ofNat (6 + w.length)).toUInt32 - 6).toNat = w.length := by
      rw [UInt32.toNat_sub, UInt16.toNat_toUInt32, hheader]
      simp only [UInt32.reduceToNat]
      omega
    refine (parses_bytes hbytes).then ?_
    rw [hconv.toUtf8_toUtf16 hw]
    apply Parses.allocated
    unfold pushSarray
    by_cases h16 : 2 ^ 16 ≤ prules.length
    · rw [if_pos h16]
      exact Parses.of_none rfl
    rw [if_neg h16]
    have hrules : (UInt16.ofNat prules.length).toNat = prules.length :=
      UInt16.toNat_ofNat_lt (by omega)
    refine (parses_uint16 _).then (Parses.allocated ?_)
    rw [hrules]
    have hplaces : Parses (forEach (fun i => pullTzrule (years i)) (.range prules.length)) _ _ _ :=
      Parses.places (by simp) fun i v (_ : v ∈ prules) => parses_tzrule (years i) v
    refine (hplaces.map (by simp)).congr ?_
    simp [List.forall₂_iff_get, TzrulesFit]

/-! All time zones. -/

inductive TimeZone
  | definition (r : Timezonedefinition)
  | struct (r : Timezonestruct)

namespace TimeZone

def push : TimeZone → Emit
  | definition r => pushTimezonedefinition x r
  | struct r => pushTimezonestruct r

/-- The pull function of the same kind undoes the push, in any memory that holds `years` where the
rules have theirs. -/
def UndoneBy (years : ℕ → Int16) (p : Pushed) : TimeZone → Prop
  | definition r => Undone (fun _ => pullTimezonedefinition x years) p r
  | struct r => Undone (fun _ => pullTimezonestruct) p r

/-- The key name can be converted and has at most 130 units, the rules can be counted in 16 bits,
and each of them has its year in its flags and in the memory that it is read into. -/
def Fits (years : ℕ → Int16) : TimeZone → Prop
  | definition r =>
    (∃ w, x.iconv.toUtf16 r.keyname = some w ∧ w.length ≤ 260) ∧ r.prules.length < 2 ^ 16 ∧
      TzrulesFit years r.prules
  | struct _ => True

end TimeZone

variable {x}

lemma whole_systemtime (r : Systemtime) : (pushSystemtime r).Whole :=
  ⟨trivial, trivial, trivial, trivial, trivial, trivial, trivial, trivial⟩

lemma whole_tzrule (r : Tzrule) : (pushTzrule r).Whole :=
  ⟨trivial, trivial, trivial, trivial, trivial, trivial, trivial, trivial, trivial,
    whole_systemtime _, whole_systemtime _⟩

lemma whole_timezonedefinition {r : Timezonedefinition} : (pushTimezonedefinition x r).Whole ↔
    (∃ w, x.iconv.toUtf16 r.keyname = some w ∧ w.length ≤ 260) ∧ r.prules.length < 2 ^ 16 := by
  unfold pushTimezonedefinition
  cases hw : x.iconv.toUtf16 r.keyname with
  | none => simp [Emit.Whole]
  | some w =>
    dsimp only
    split_ifs with hlong
    · refine ⟨fun h => h.2.2.elim, ?_⟩
      rintro ⟨⟨w', hw', hle⟩, -⟩
      cases hw'
      omega
    · unfold pushSarray
      split_ifs with h16
      · exact ⟨fun h => h.2.2.2.2.2.2.elim, fun h => absurd h.2 (by omega)⟩
      · have hrules : (pushEach pushTzrule r.prules).Whole :=
          whole_pushEach fun v _ => whole_tzrule v
        simp only [Emit.Whole, pushUint8, pushUint16, true_and, hrules, Option.some.injEq,
          exists_eq_left', true_iff]
        omega

lemma near_timezonedefinition (r : Timezonedefinition) (rest : ℕ) :
    (pushTimezonedefinition x r).Near rest := by
  unfold pushTimezonedefinition
  refine ⟨trivial, trivial, ?_⟩
  split
  · trivial
  · split_ifs
    · trivial
    · refine ⟨trivial, trivial, trivial, trivial, ?_⟩
      unfold pushSarray
      split_ifs
      · trivial
      · exact ⟨trivial, near_pushEach _⟩

/-- **Time zones that are read back.** A time zone is pushed and the pull undoes it exactly if it
fits and has room in the buffer. -/
theorem timeZone_undoneBy_iff (hconv : x.iconv.Lawful) {cap off : ℕ} (hcap : cap < 2 ^ 32)
    (hoff : off ≤ cap) (years : ℕ → Int16) (r : TimeZone) :
    (((r.push x).run cap off).status = .success ∧
      r.UndoneBy x years ((r.push x).run cap off)) ↔
      r.Fits x years ∧ off + (r.push x).size ≤ cap := by
  have hwrites : (r.push x).Whole → off + (r.push x).size ≤ cap →
      ((r.push x).run cap off).status = .success := by
    intro hwhole hroom
    obtain ⟨bs, hbs⟩ := whole_iff.mp hwhole
    rw [run_of_encoding hcap hbs (by rwa [length_encoding hbs])]
  cases r with
  | definition r =>
    have hundone := fun hs => undone_iff (n := 0)
      (fun depth _ => parses_timezonedefinition x hconv years r) hcap hoff hs
    constructor
    · rintro ⟨hs, h⟩
      obtain ⟨hwhole, hroom, hgood, -⟩ := (hundone hs).mp h
      obtain ⟨hname, hrules⟩ := whole_timezonedefinition.mp hwhole
      exact ⟨⟨hname, hrules, hgood⟩, hroom⟩
    · rintro ⟨⟨hname, hrules, hgood⟩, hroom⟩
      have hwhole := whole_timezonedefinition.mpr ⟨hname, hrules⟩
      have hs := hwrites hwhole hroom
      exact ⟨hs, (hundone hs).mpr ⟨hwhole, hroom, hgood, near_timezonedefinition r _⟩⟩
  | struct r =>
    have hundone := fun hs => undone_iff (n := 0)
      (fun depth _ => parses_timezonestruct r) hcap hoff hs
    constructor
    · rintro ⟨hs, h⟩
      exact ⟨trivial, ((hundone hs).mp h).2.1⟩
    · rintro ⟨-, hroom⟩
      have hwhole : (pushTimezonestruct r).Whole :=
        ⟨trivial, trivial, trivial, trivial, whole_systemtime _, trivial, whole_systemtime _⟩
      have hs := hwrites hwhole hroom
      exact ⟨hs, (hundone hs).mpr ⟨hwhole, hroom, trivial, Plain.near _⟩⟩

def noDate : Systemtime := ⟨0, 0, 0, 0, 0, 0, 0, 0⟩

/-- A time zone `A` with one rule for a year. -/
def yearZone (year : Int16) : TimeZone :=
  .definition ⟨2, 1, 2, .of [0x41],
    [⟨2, 1, 0x3E, 2, year, ⟨List.replicate 14 0, rfl⟩, 60, 0, -60, noDate, noDate⟩]⟩

theorem timeZone_undoneBy_iff_year : (((yearZone 2).push unicodeSetup).run 128 0).status = .success ∧
    (yearZone 2).UndoneBy unicodeSetup (fun _ => 2) (((yearZone 2).push unicodeSetup).run 128 0) := by
  refine (timeZone_undoneBy_iff (x := unicodeSetup) asciiIconv_lawful (by decide) (by decide)
    (fun _ => 2) (yearZone 2)).mpr ⟨⟨⟨[0x41, 0], by decide, by decide⟩, by decide, ?_⟩, by decide⟩
  intro i hi
  obtain rfl : i = 0 := by simpa using hi
  exact ⟨rfl, rfl⟩

/-- The flags of a rule for the year 2007 come back as 2007. -/
theorem not_timeZone_undoneBy : ¬ ∀ (x : Setup) (cap off : ℕ) (years : ℕ → Int16) (r : TimeZone),
    x.iconv.Lawful → cap < 2 ^ 32 → off ≤ cap → ((r.push x).run cap off).status = .success →
    r.UndoneBy x years ((r.push x).run cap off) := by
  intro h
  have hs : (((yearZone 2007).push unicodeSetup).run 128 0).status = .success := by decide
  have hundone := h unicodeSetup 128 0 (fun _ => 2007) (yearZone 2007) asciiIconv_lawful (by decide)
    (by decide) hs
  have hfits := (timeZone_undoneBy_iff asciiIconv_lawful (by decide) (by decide) _ _).mp
    ⟨hs, hundone⟩
  exact absurd (hfits.1.2.2 0 Nat.zero_lt_one).1 (by decide)

end SteepSystem.ExtBuffer
