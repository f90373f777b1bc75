import SteepSystem.ExtBuffer.Parses

/-!
Reading back what is pushed for scalars, strings, binaries, arrays and identifiers.
-/

namespace SteepSystem.ExtBuffer

open SteepSystem.Lib.Bytes SteepSystem.Lib.Programs SteepSystem.Lib.Programs.Program

variable (x : Setup)

lemma parses_fixed {α : Type} {n : ℕ} {f : Bytes → α} {bs : Bytes} (hn : n = bs.length) :
    Parses (do
      let v ← readFixed n
      pure (f v)) (.bytes bs) (f bs) True := by
  apply Parses.of_run
  rintro _ ⟨⟩ b off hb hat
  rw [run_then_of (run_readFixed hat hn)]
  rfl

lemma parses_uint8 (v : UInt8) : Parses pullUint8 (pushUint8 v) v True := by
  have h := parses_fixed (f := fun bs => UInt8.ofNat (ofLE bs)) (length_le 1 v.toNat).symm
  rwa [ofLE_le_of_lt v.toNat_lt, UInt8.ofNat_toNat] at h

lemma parses_uint16 (v : UInt16) : Parses pullUint16 (pushUint16 v) v True := by
  have h := parses_fixed (f := fun bs => UInt16.ofNat (ofLE bs)) (length_le 2 v.toNat).symm
  rwa [ofLE_le_of_lt v.toNat_lt, UInt16.ofNat_toNat] at h

lemma parses_uint32 (v : UInt32) : Parses pullUint32 (pushUint32 v) v True := by
  have h := parses_fixed (f := fun bs => UInt32.ofNat (ofLE bs)) (length_le 4 v.toNat).symm
  rwa [ofLE_le_of_lt v.toNat_lt, UInt32.ofNat_toNat] at h

lemma parses_uint64 (v : UInt64) : Parses pullUint64 (pushUint64 v) v True := by
  have h := parses_fixed (f := fun bs => UInt64.ofNat (ofLE bs)) (length_le 8 v.toNat).symm
  rwa [ofLE_le_of_lt v.toNat_lt, UInt64.ofNat_toNat] at h

lemma Block.of_self {n : ℕ} (r : Block n) : Block.of n r.1 = r := by
  obtain ⟨bytes, rfl⟩ := r
  simp [Block.of]

lemma parses_block {n : ℕ} (r : Block n) : Parses (pullBlock n) (pushBlock r) r True := by
  apply Parses.of_run
  rintro _ ⟨⟩ b off hb hat
  rw [pullBlock, run_then_of (run_readBytes hat r.2.symm), run_ret, Block.of_self]

lemma parses_guid (r : Guid) : Parses pullGuid (pushGuid r) r True := by
  obtain ⟨a, b, c, d, e⟩ := r
  unfold pullGuid pushGuid
  exact (parses_uint32 _).then <| (parses_uint16 _).then <| (parses_uint16 _).then <|
    (parses_block _).then <| (parses_block _).map (by simp)

/-! Strings. -/

/-- The size of a string is an `int`, and a table cuts the string at 509 bytes. -/
def StringFits (s : CString) : Prop :=
  s.bytes.length + 1 < 2 ^ 31 ∧ (x.tbllmt → s.bytes.length + 1 ≤ 510)

/-- The string is valid, and what it is converted to has room in the buffer made for it, in the
one made when it is read, and in a table. -/
def WstringFits (s : CString) : Prop :=
  if x.utf16 then
    ∃ w, x.iconv.toUtf16 s = some w ∧ w.length + 2 ≤ (2 * s.bytes.length + 2) % 2 ^ 32 ∧
      w.length + 2 < 2 ^ 30 ∧ (x.tbllmt → w.length + 2 ≤ 510)
  else StringFits x s

lemma takeWhile_terminated {s post : Bytes} (h : ∀ c ∈ s, c ≠ 0) :
    (s ++ 0 :: post).takeWhile (· ≠ 0) = s := by
  induction s with
  | nil => simp
  | cons c s ih =>
    obtain ⟨hc, h⟩ := List.forall_mem_cons.mp h
    rw [List.cons_append, List.takeWhile_cons_of_pos (by simpa using hc), ih h]

lemma CString.of_terminated {s : Bytes} (h : ∀ c ∈ s, c ≠ 0) :
    (CString.of (s ++ [0])).bytes = s := takeWhile_terminated h

lemma run_string {b : Input} {off : ℕ} (hb : Granted b) {s : Bytes} (hs : ∀ c ∈ s, c ≠ 0)
    (hlt : s.length + 1 < 2 ^ 31) (hat : At b off (s ++ [0])) :
    b.run pullString off = .ok (.of (s ++ [0]), off + s.length + 1) := by
  obtain ⟨post, hd⟩ := hat.drop
  have hle := hat.le
  have hsize := b.size_lt
  change b.size < 2 ^ 32 at hsize
  simp only [List.length_append, List.length_singleton] at hle
  have hlen : b.strnlen off = s.length := by
    rw [Input.strnlen, hd, List.append_assoc, List.singleton_append, takeWhile_terminated hs]
  have hpeek : b.run peekString off = .ok (s ++ [0], off) := by
    rw [peekString, run_op_eq]
    simp only [exec, hlen, hb off]
    rw [Nat.mod_eq_of_lt (by omega), if_neg (by omega), if_neg (by omega), if_neg (by simp; omega),
      hat.fetch (by simp)]
    rfl
  rw [pullString, run_then_of hpeek, run_then_of (run_skip (by simp; omega)), run_ret]
  simp [Nat.add_assoc]

/-- The size of what is read as a string is an `int`. -/
lemma run_string_length {b : Input} {off t : ℕ} {s : CString}
    (h : b.run pullString off = .ok (s, t)) : s.bytes.length + 1 < 2 ^ 31 := by
  rw [pullString] at h
  obtain ⟨raw, u, hraw, h⟩ := run_then.mp h
  obtain ⟨_, _, -, h⟩ := run_then.mp h
  rw [run_ret] at h
  cases h
  rw [peekString, run_op_eq] at hraw
  simp only [exec] at hraw
  split_ifs at hraw with h1 h2 h3
  · cases hraw
  · cases hraw
  · cases hraw
  · unfold Input.fetch at hraw
    split_ifs at hraw with hle
    · cases hraw
      have hsize := b.size_lt
      change b.size < 2 ^ 32 at hsize
      have hlen : b.strnlen off ≤ b.size - off := by
        unfold Input.strnlen Input.size
        rw [← List.length_drop]
        exact (List.takeWhile_prefix _).length_le
      simp only [CString.of]
      rw [← List.take_takeWhile, List.length_take]
      change min _ (b.strnlen off) + 1 < 2 ^ 31
      omega
    · cases hraw

lemma CString.of_append_zero (s : CString) : CString.of (s.bytes ++ [0]) = s := by
  have h := CString.of_terminated s.ne_zero
  obtain ⟨bytes, hs⟩ := s
  simpa [CString.mk.injEq, CString.of] using h

lemma parses_string (s : CString) :
    Parses pullString (pushString x s) s (StringFits x s) := by
  unfold pushString
  simp only
  split_ifs with hcut
  · -- the string is cut for a table
    have henc : (Emit.seq (.bytes (s.bytes.take 509)) (pushUint8 0)).encoding =
        some (s.bytes.take 509 ++ [0]) := rfl
    intro bs hbs b off hb hat t
    rw [henc] at hbs
    cases hbs
    have hlong : 509 ≤ s.bytes.length := by
      by_contra hlt
      rw [Nat.mod_eq_of_lt (by omega)] at hcut
      omega
    have hne : ∀ c ∈ s.bytes.take 509, c ≠ 0 := fun c hc => s.ne_zero c (List.mem_of_mem_take hc)
    have hrun := run_string hb hne (by rw [List.length_take]; omega) hat
    constructor
    · intro hr
      rw [hrun] at hr
      have hof := CString.of_terminated hne
      simp only [Except.ok.injEq, Prod.mk.injEq] at hr
      rw [hr.1] at hof
      have := congrArg List.length hof
      rw [List.length_take] at this
      rw [Nat.mod_eq_of_lt (by omega)] at hcut
      omega
    · rintro ⟨⟨⟨hlt, hfit⟩, -⟩, -⟩
      have := hfit hcut.1
      rw [Nat.mod_eq_of_lt (by omega)] at hcut
      omega
  · intro bs hbs b off hb hat t
    cases hbs
    by_cases hlt : s.bytes.length + 1 < 2 ^ 31
    · rw [Nat.mod_eq_of_lt (by omega)] at hcut hat ⊢
      rw [List.take_of_length_le (by simp)] at hat ⊢
      have hfits : StringFits x s := by
        refine ⟨hlt, fun htbl => ?_⟩
        by_contra hlong
        exact hcut ⟨htbl, by omega, by omega⟩
      rw [run_string hb s.ne_zero hlt hat, CString.of_append_zero]
      simp [hfits, Emit.Near, eq_comm, Nat.add_assoc]
    · exact ⟨fun hr => absurd (run_string_length hr) hlt, fun hg => absurd hg.1.1.1 hlt⟩

lemma zeroUnit_units {w post : Bytes} (h : Units w) :
    zeroUnit (w ++ 0 :: 0 :: post) = some w.length := by
  induction w using zeroUnit.induct with
  | case1 c d w hz => exact absurd hz h.1
  | case2 c d w hz ih =>
    rw [List.cons_append, List.cons_append, zeroUnit, if_neg hz, ih h.2]
    rfl
  | case3 w hw =>
    cases w with
    | nil => rfl
    | cons c w =>
      cases w with
      | nil => exact h.elim
      | cons d w => exact absurd rfl (hw c d w)

lemma Units.take {w : Bytes} (h : Units w) (n : ℕ) : Units (w.take (2 * n)) := by
  induction n generalizing w with
  | zero => trivial
  | succ n ih =>
    match w, h with
    | [], _ => trivial
    | c :: d :: w, h =>
      rw [show 2 * (n + 1) = 2 * n + 2 by omega, List.take_succ_cons, List.take_succ_cons]
      exact ⟨h.1, ih h.2⟩

/-- A string of 16-bit units is read up to its terminator, if the two sizes that are computed on
the way are those of an `int`. -/
lemma run_wstring (hutf16 : x.utf16 = true) {b : Input} {off t : ℕ} (hb : Granted b) {w : Bytes}
    {s : CString} (hw : Units w) (hat : At b off (w ++ [0, 0])) :
    b.run (pullWstring x) off = .ok (s, t) ↔
      (b.size - off < 2 ^ 31 ∧ w.length + 2 < 2 ^ 30) ∧ x.iconv.toUtf8 w = some s ∧
        t = off + w.length + 2 := by
  obtain ⟨post, hd⟩ := hat.drop
  have hle := hat.le
  have hsize := b.size_lt
  change b.size < 2 ^ 32 at hsize
  simp only [List.length_append, List.length_cons, List.length_nil] at hle
  have hzero : zeroUnit (b.data.drop off) = some w.length := by
    rw [hd, List.append_assoc]
    exact zeroUnit_units hw
  unfold pullWstring
  rw [if_neg (by simp [hutf16])]
  by_cases hint : b.size - off < 2 ^ 31 ∧ w.length + 2 < 2 ^ 30
  · have hpeek : b.run peekWstring off = .ok (w ++ [0, 0], off) := by
      rw [peekWstring, run_op_eq]
      simp only [exec, hzero, hb off]
      rw [if_neg (by omega), if_neg (by simp; omega), hat.fetch (by simp)]
      rfl
    have htake : (w ++ [0, 0]).take ((w ++ [0, 0]).length - 2) = w := by simp
    rw [run_then_of hpeek, htake, and_iff_right hint]
    cases x.iconv.toUtf8 w with
    | none => simp [fail, run_op_eq, exec, stop, Except.bind]
    | some s =>
      simp only
      rw [run_then_of (run_skip (by simp; omega)), run_ret]
      simp [Nat.add_assoc, eq_comm]
  · refine ⟨fun hr => ?_, fun hr => absurd hr.1 hint⟩
    obtain ⟨raw, u, hraw, -⟩ := run_then.mp hr
    rw [peekWstring, run_op_eq] at hraw
    simp only [exec, hzero] at hraw
    split_ifs at hraw with h1 h2
    · cases hraw
    · cases hraw
    · omega

lemma parses_wstring (hconv : x.iconv.Lawful) (s : CString) :
    Parses (pullWstring x) (pushWstring x s) s (WstringFits x s) := by
  unfold pushWstring WstringFits
  by_cases hutf16 : x.utf16 = true
  swap
  · rw [if_pos (by simpa using hutf16), if_neg hutf16]
    unfold pullWstring
    rw [if_pos (by simpa using hutf16)]
    exact parses_string x s
  rw [if_neg (by simpa using hutf16), if_pos hutf16]
  simp only
  split_ifs with hlen hcut
  · exact Parses.of_none rfl
  · -- the units are cut for a table
    intro bs hbs b off hb hat t
    cases hbs
    obtain ⟨htbl, hlong⟩ := hcut
    split at hlong
    · rename_i w hw
      split_ifs at hlong with hroom
      · simp only [hw, if_pos hroom] at hat ⊢
        rw [List.length_append, List.length_cons, List.length_singleton] at hlong
        rw [List.take_append_of_le_length (by omega)] at hat ⊢
        have hunits := (hconv.units hw).take 254
        rw [run_wstring x hutf16 hb hunits hat]
        constructor
        · rintro ⟨-, hs, -⟩
          -- the units of another string
          have heq := hconv.toUtf16_toUtf8 hunits hs
          rw [hw, Option.some.injEq] at heq
          have := congrArg List.length heq
          rw [List.length_take] at this
          omega
        · rintro ⟨⟨⟨w', hw', -, -, hfit⟩, -⟩, -⟩
          cases hw'
          have := hfit htbl
          omega
      · simp at hlong
    · simp at hlong
  · intro bs hbs b off hb hat t
    cases hbs
    -- whatever is not converted stands there as an empty string
    have hempty : At b off ([] ++ [0, 0]) → ¬ (∃ w, x.iconv.toUtf16 s = some w ∧
        w.length + 2 ≤ (2 * s.bytes.length + 2) % 2 ^ 32 ∧ w.length + 2 < 2 ^ 30 ∧
        (x.tbllmt → w.length + 2 ≤ 510)) → b.run (pullWstring x) off ≠ .ok (s, t) := by
      intro hat hfit hr
      obtain ⟨-, hs, -⟩ := (run_wstring x hutf16 hb (w := []) trivial hat).mp hr
      rw [hconv.toUtf8_toUtf16 hconv.nil, Option.some.injEq] at hs
      subst hs
      exact hfit ⟨[], hconv.nil, by simp [CString.of], by simp, by simp⟩
    cases hw : x.iconv.toUtf16 s with
    | none =>
      simp only [hw] at hat ⊢
      refine ⟨fun hr => absurd hr (hempty hat (by simp [hw])), ?_⟩
      rintro ⟨⟨⟨w, hw', -⟩, -⟩, -⟩
      cases hw'
    | some w =>
      simp only [hw] at hat hcut ⊢
      split_ifs at hat hcut ⊢ with hroom
      · have hfit : x.tbllmt → w.length + 2 ≤ 510 := by
          intro htbl
          by_contra hlong
          exact hcut ⟨htbl, by simp; omega⟩
        rw [run_wstring x hutf16 hb (hconv.units hw) hat, hconv.toUtf8_toUtf16 hw]
        simp only [Emit.Near, List.length_append, List.length_cons, List.length_nil, true_and,
          Option.some.injEq, exists_eq_left', Nat.add_assoc]
        tauto
      · refine ⟨fun hr => absurd hr (hempty hat ?_), ?_⟩
        · rintro ⟨w', hw', hroom', -⟩
          cases hw.symm.trans hw'
          exact hroom hroom'
        rintro ⟨⟨⟨w', hw', hroom', -⟩, -⟩, -⟩
        cases hw'
        exact absurd hroom' hroom

/-! Binaries, arrays and identifiers. -/

lemma UInt32.toNat_ofNat_lt {n : ℕ} (h : n < 2 ^ 32) : (UInt32.ofNat n).toNat = n := by
  rw [UInt32.toNat_ofNat', Nat.mod_eq_of_lt h]

lemma UInt16.toNat_ofNat_lt {n : ℕ} (h : n < 2 ^ 16) : (UInt16.ofNat n).toNat = n := by
  rw [UInt16.toNat_ofNat', Nat.mod_eq_of_lt h]

lemma parses_bytes {n : UInt32} {bs : Bytes} (h : n.toNat = bs.length) :
    Parses (pullBytes n) (.bytes bs) bs True := by
  apply Parses.of_run
  rintro _ ⟨⟩ b off hb hat
  exact run_readBytes hat h

lemma parses_sized (pb : Bytes) : Parses (pullSized pb.length) (.bytes pb) pb True := by
  apply Parses.of_run
  rintro _ ⟨⟩ b off hb hat
  unfold pullSized
  split_ifs with hn
  · rw [List.length_eq_zero_iff] at hn
    rw [hn]
    rfl
  · rw [hb.run_alloc_then, run_readBytes hat rfl]

/-- A count of 32 bits. -/
lemma parses_count32 {n : ℕ} (h : n < 2 ^ 32) : Parses (do
    let count ← pullUint32
    pure count.toNat) (pushUint32 (.ofNat n)) n True := by
  have hp := (parses_uint32 (.ofNat n)).map (f := UInt32.toNat)
    (fun v hv => UInt32.toNat_inj.mp hv.symm)
  rwa [UInt32.toNat_ofNat_lt h] at hp

/-- A count cut to 16 bits. -/
lemma parses_count16 {n : ℕ} : Parses (do
    let count ← pullUint16
    pure count.toNat) (pushUint16 (.ofNat n)) (n % 2 ^ 16) True := by
  have hp := (parses_uint16 (.ofNat n)).map (f := UInt16.toNat)
    (fun v hv => UInt16.toNat_inj.mp hv.symm)
  rwa [UInt16.toNat_ofNat'] at hp

lemma parses_binary (pb : Bytes) : Parses (pullBinary x) (pushBinary x pb) pb True := by
  unfold pullBinary pushBinary
  by_cases h32 : 2 ^ 32 ≤ pb.length
  · rw [if_pos h32]
    exact Parses.of_none rfl
  rw [if_neg h32]
  by_cases hw : x.wcount = true
  · rw [pullCount, if_pos hw, if_pos hw]
    exact (parses_count32 (by omega)).then (parses_sized pb)
  · rw [pullCount, if_neg hw, if_neg hw]
    split_ifs with h16
    · exact Parses.of_none rfl
    · have hcount := parses_count16 (n := pb.length)
      rw [Nat.mod_eq_of_lt (by omega)] at hcount
      exact hcount.then (parses_sized pb)

variable {α : Type} {p : Pull α} {push : α → Emit} {good : α → Prop} {l : List α}

lemma parses_array (h : ∀ v ∈ l, Parses p (push v) v (good v)) :
    Parses (pullArray p) (pushArray push l) l (∀ v ∈ l, good v) := by
  unfold pullArray pushArray
  split_ifs with h32
  · exact Parses.of_none rfl
  · refine (parses_uint32 _).then ((Parses.elements h).congr ?_)
    rw [UInt32.toNat_ofNat_lt (by omega)]
    simp

lemma parses_sarray (h : ∀ v ∈ l, Parses p (push v) v (good v)) :
    Parses (pullSarray p) (pushSarray push l) l (∀ v ∈ l, good v) := by
  unfold pullSarray pushSarray
  split_ifs with h16
  · exact Parses.of_none rfl
  · refine (parses_uint16 _).then ((Parses.elements h).congr ?_)
    rw [UInt16.toNat_ofNat_lt (by omega)]
    simp

lemma parses_plain_array (h : ∀ v, Parses p (push v) v True) :
    Parses (pullArray p) (pushArray push l) l True :=
  (parses_array fun v _ => h v).congr (by simp)

lemma parses_svreid (r : Svreid) : Parses pullSvreid (pushSvreid r) r
    (∀ pbin, r = .other pbin → pbin.length + 1 < 2 ^ 16) := by
  unfold pullSvreid
  cases r with
  | ours folderId messageId instance_ =>
    refine Parses.congr ?_ (g := True) (by simp)
    refine (parses_uint16 21).then ((parses_uint8 1).then ?_)
    rw [if_neg (by decide), if_neg (by decide)]
    exact (parses_uint64 _).then <| (parses_uint64 _).then <| (parses_uint32 _).map (by simp)
  | other pbin =>
    unfold pushSvreid
    simp only
    split_ifs with h32
    · exact Parses.of_none rfl
    by_cases hall : pbin.length + 1 = 2 ^ 32
    · -- there is no room for that
      intro bs hbs b off hb hat t
      have hle := hat.le
      have hsize := b.size_lt
      change b.size < 2 ^ 32 at hsize
      rw [length_encoding hbs] at hle
      simp only [Emit.size, pushUint16, pushUint8, length_le] at hle
      omega
    refine (parses_uint16 _).then ((parses_uint8 0).then ?_)
    rw [if_pos rfl]
    apply Parses.allocated
    simp only [Svreid.other.injEq, forall_eq']
    intro bs hbs b off hb hat t
    cases hbs
    have hle := hat.le
    have hcb : ((UInt16.ofNat (pbin.length + 1)).toUInt32 - 1).toNat = pbin.length ↔
        pbin.length + 1 < 2 ^ 16 := by
      rw [UInt32.toNat_sub, UInt16.toNat_toUInt32, UInt16.toNat_ofNat']
      simp only [UInt32.reduceToNat]
      omega
    rw [run_then, ← hcb]
    constructor
    · rintro ⟨data, u, hr, hret⟩
      rw [run_ret] at hret
      cases hret
      have hlen := run_readBytes_length hr
      refine ⟨⟨hlen.symm, trivial⟩, ?_⟩
      rw [pullBytes, run_readBytes hat hlen.symm] at hr
      cases hr
      rfl
    · rintro ⟨⟨hlen, -⟩, rfl⟩
      exact ⟨pbin, _, run_readBytes hat hlen, rfl⟩

lemma parses_storeEntryid (r : StoreEntryid) :
    Parses pullStoreEntryid (pushStoreEntryid x r) r
      (StringFits x r.pserverName ∧ StringFits x r.pmailboxDn) := by
  obtain ⟨a, b, c, d, e, f, g, h, i, j⟩ := r
  unfold pullStoreEntryid pushStoreEntryid
  refine (parses_uint32 _).then <| (parses_block _).then <| (parses_uint8 _).then <|
    (parses_uint8 _).then <| (parses_block _).then <| (parses_uint32 _).then <|
    (parses_block _).then <| (parses_uint32 _).then <|
    (parses_string x _).bind ((parses_string x _).map (by simp)) ?_
  intro s hs
  simp only [returns_bind, returns_pure, StoreEntryid.mk.injEq] at hs
  obtain ⟨_, -, hs⟩ := hs
  tauto

lemma parses_advance {bs : Bytes} {size : UInt32} (h : size.toNat = bs.length) :
    Parses (pullAdvance size) (.bytes bs) () True := by
  apply Parses.of_run
  rintro _ ⟨⟩ b off hb hat
  have hle := hat.le
  rw [pullAdvance, run_skip (by omega), h]

def MovecopyFits : MovecopyAction → Prop
  | .otherStore none _ => False
  | .otherStore (some pstoreEid) _ =>
    StringFits x pstoreEid.pserverName ∧ StringFits x pstoreEid.pmailboxDn
  | .sameStore _ pfolderEid => ∀ pbin, pfolderEid = .other pbin → pbin.length + 1 < 2 ^ 16

lemma parses_movecopyAction (r : MovecopyAction) :
    Parses (pullMovecopyAction x) (pushMovecopyAction x r) r (MovecopyFits x r) := by
  unfold pullMovecopyAction
  cases r with
  | sameStore flag pfolderEid =>
    obtain ⟨flag, hflag⟩ := flag
    refine (parses_uint8 _).then <| (parses_uint16 _).then ?_
    rw [dif_neg hflag]
    refine (parses_advance rfl).then (Parses.allocated ?_)
    exact (parses_svreid pfolderEid).map (by simp)
  | otherStore pstoreEid pfolderEid =>
    cases pstoreEid with
    | none => exact Parses.of_none rfl
    | some pstoreEid =>
      refine (parses_uint8 _).then (Parses.sized_seq fun eidSize => ?_)
      rw [dif_pos rfl]
      apply Parses.allocated
      refine Parses.congr ((parses_storeEntryid x pstoreEid).bind (Parses.allocated
        ((parses_binary x pfolderEid).map (by simp))) ?_) (and_iff_left trivial)
      intro s hs
      simp only [returns_bind, returns_pure, MovecopyAction.otherStore.injEq] at hs
      obtain ⟨_, -, _, -, hs, -⟩ := hs
      exact Option.some.inj hs.symm

lemma parses_replyAction (r : ReplyAction) :
    Parses pullReplyAction (pushReplyAction r) r True := by
  obtain ⟨a, b, c⟩ := r
  unfold pullReplyAction pushReplyAction
  exact (parses_uint64 _).then <| (parses_uint64 _).then <| (parses_guid _).map (by simp)

end SteepSystem.ExtBuffer
