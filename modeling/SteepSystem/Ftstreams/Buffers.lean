import SteepSystem.Ftstreams.Parser

/-!
The elements of an upload are those of the stream, however it has been cut into buffers.
-/

namespace SteepSystem.Ftstreams

open SteepSystem.ExtBuffer SteepSystem.Lib.Bytes SteepSystem.Lib.Feeds SteepSystem.Lib.Feeds.Reader

variable {α : Type}

/-! ### The readers go on where they have waited -/

lemma incremental_readUint8 : Incremental readUint8 := (Incremental.take 1).map _

lemma incremental_readUint16 : Incremental readUint16 := (Incremental.take 2).map _

lemma incremental_readUint32 : Incremental readUint32 := (Incremental.take 4).map _

lemma incremental_readUint64 : Incremental readUint64 := (Incremental.take 8).map _

lemma reads_readUint8 : Reads 1 readUint8 :=
  (Reads.take 1).bind fun _ => Reads.zero (Incremental.pure _)

lemma reads_readUint16 : Reads 2 readUint16 :=
  (Reads.take 2).bind fun _ => Reads.zero (Incremental.pure _)

lemma reads_readUint32 : Reads 4 readUint32 :=
  (Reads.take 4).bind fun _ => Reads.zero (Incremental.pure _)

lemma reads_readUint64 : Reads 8 readUint64 :=
  (Reads.take 8).bind fun _ => Reads.zero (Incremental.pure _)

lemma incremental_readGuid : Incremental readGuid :=
  incremental_readUint32.bind fun _ => incremental_readUint16.bind fun _ =>
    incremental_readUint16.bind fun _ => (Incremental.take 2).bind fun _ =>
      (Incremental.take 6).map _

lemma reads_readGuid : Reads 16 readGuid :=
  reads_readUint32.bind fun _ => reads_readUint16.bind fun _ => reads_readUint16.bind fun _ =>
    (Reads.take 2).bind fun _ => (Reads.take 6).bind fun _ => Reads.zero (Incremental.pure _)

lemma incremental_readSvreid : Incremental readSvreid := by
  have hnumbers : Incremental (do
      let folderId ← readUint64
      let messageId ← readUint64
      let instance_ ← readUint32
      pure (.ours folderId messageId instance_) : Read Svreid) :=
    incremental_readUint64.bind fun _ => incremental_readUint64.bind fun _ =>
      incremental_readUint32.map _
  have hreads : Reads 20 (do
      let folderId ← readUint64
      let messageId ← readUint64
      let instance_ ← readUint32
      pure (.ours folderId messageId instance_) : Read Svreid) :=
    reads_readUint64.bind fun _ => reads_readUint64.bind fun _ => reads_readUint32.bind fun _ =>
      Reads.zero (Incremental.pure _)
  refine incremental_readUint32.bind fun len => ?_
  by_cases hlen : len ≠ 21
  · rw [if_pos hlen]
    exact Incremental.fail.needing (Reads.fail _)
  · rw [if_neg hlen]
    obtain rfl : len = 21 := not_not.mp hlen
    refine Incremental.needing (incremental_readUint8.bind fun ours => ?_)
      (Reads.mono (n := 1 + 20) (reads_readUint8.bind fun ours => ?_) (by decide))
    · exact ((Incremental.take 20).bind fun _ => hnumbers).ite hnumbers
    · exact (((Reads.take 20).bind fun _ => hreads).mono (by decide)).ite hreads

lemma incremental_nakedLoop (n : ℕ) (buff : Bytes) : Incremental (nakedLoop n buff) := by
  induction n generalizing buff with
  | zero => exact Incremental.fail
  | succ n ih => exact (Incremental.take 2).bind fun unit => (Incremental.pure _).ite (ih _)

lemma readMany_ok {r : Read α} {n used : ℕ} {p rest : Bytes} {l : List α} :
    readMany r (n + 1) used p = .ok (l, rest) ↔ ∃ a b p' as, r p = .ok (a, b :: p') ∧
      readMany r n (used + (p.length - (b :: p').length)) (b :: p') = .ok (as, rest) ∧
        l = a :: as := by
  cases hr : r p with
  | error e =>
    cases e with
    | wait =>
      simp only [readMany, hr]
      split_ifs <;> simp
    | fail => simp [readMany, hr]
  | ok y =>
    obtain ⟨a, p'⟩ := y
    cases p' with
    | nil =>
      simp only [readMany, hr]
      split_ifs <;> simp
    | cons b p' =>
      simp only [readMany, hr]
      rw [bind_eq_ok]
      constructor
      · rintro ⟨as, p'', has, hl⟩
        cases hl
        exact ⟨a, b, p', as, rfl, has, rfl⟩
      · rintro ⟨a', b', p'', as, hp, has, rfl⟩
        cases hp
        exact ⟨as, rest, has, rfl⟩

lemma readMany_wait {r : Read α} {n used : ℕ} {p : Bytes}
    (h : readMany r (n + 1) used p = .error .wait) :
    r p = .error .wait ∨ (∃ a, r p = .ok (a, [])) ∨ ∃ a b p', r p = .ok (a, b :: p') ∧
      readMany r n (used + (p.length - (b :: p').length)) (b :: p') = .error .wait := by
  cases hr : r p with
  | error e =>
    cases e with
    | wait => exact .inl rfl
    | fail =>
      simp only [readMany, hr] at h
      cases h
  | ok y =>
    obtain ⟨a, p'⟩ := y
    cases p' with
    | nil => exact .inr (.inl ⟨a, rfl⟩)
    | cons b p' =>
      simp only [readMany, hr] at h
      rcases bind_eq_error.mp h with hwait | ⟨as, p'', -, hpure⟩
      · exact .inr (.inr ⟨a, b, p', rfl, hwait⟩)
      · cases hpure

lemma incremental_readMany {r : Read α} (hr : Incremental r) (n used : ℕ) :
    Incremental (readMany r n used) := by
  induction n generalizing used with
  | zero => exact Incremental.pure _
  | succ n ih =>
    refine ⟨fun h => ?_, fun {p _ _} q h => ?_, fun {p q _ _} h hext => ?_⟩
    · obtain ⟨a, b, p', as, hp, has, -⟩ := readMany_ok.mp h
      exact ((ih _).suffix has).trans (hr.suffix hp)
    · obtain ⟨a, b, p', as, hp, has, rfl⟩ := readMany_ok.mp h
      have hlen : (p ++ q).length - (b :: p' ++ q).length = p.length - (b :: p').length := by
        simp only [List.length_append]
        omega
      refine readMany_ok.mpr ⟨a, b, p' ++ q, as, hr.persists q hp, ?_, rfl⟩
      rw [← List.cons_append, hlen]
      exact (ih _).persists q has
    · obtain ⟨a, b, p', as, hp, has, -⟩ := readMany_ok.mp hext
      have hrest := (ih _).shrinks has
      rcases readMany_wait h with hwait | ⟨a', hp'⟩ | ⟨a', b', p'', hp', hwait⟩
      · exact hrest.trans (hr.waits hwait hp)
      · have hagain := hr.persists q hp'
        rw [hp, List.nil_append] at hagain
        cases hagain
        exact hrest
      · have hagain := hr.persists q hp'
        rw [hp] at hagain
        obtain ⟨-, hrest'⟩ : a = a' ∧ b :: p' = b' :: p'' ++ q := by simpa using hagain
        have hlen : (p ++ q).length - (b' :: p'' ++ q).length = p.length - (b' :: p'').length := by
          simp only [List.length_append]
          omega
        rw [hrest', hlen] at has
        exact (ih _).waits hwait has

lemma incremental_readArray {r : Read α} {size : ℕ} (hr : Incremental r) (hsize : Reads size r) :
    Incremental (readArray size r) :=
  incremental_readUint32.bind fun _ =>
    Incremental.fail.ite ((hr.times _).needing (hsize.times _))

lemma incremental_readGuidArray : Incremental readGuidArray := by
  refine incremental_readUint32.bind fun count => Incremental.fail.ite ?_
  refine (incremental_readGuid.times _).needing ((reads_readGuid.times _).mono ?_)
  rw [UInt32.toNat_mul, Nat.mul_comm count.toNat]
  exact Nat.mod_le _ _

variable (x : Setup)

lemma incremental_readWstring : Incremental (readWstring x) := by
  refine incremental_readUint32.bind fun len => Incremental.fail.ite ?_
  by_cases hlen : len < 2
  · rw [if_pos hlen]
    exact Incremental.fail.needing (Reads.fail _)
  · rw [if_neg hlen]
    refine Incremental.needing ((Incremental.take _).bind fun pbuff => ?_)
      (((Reads.take len.toNat).bind fun pbuff => Reads.zero ?_).mono le_rfl)
    all_goals
      split
      · exact Incremental.pure _
      · exact Incremental.fail

lemma incremental_readString : Incremental (readString x) := by
  refine incremental_readUint32.bind fun len => Incremental.fail.ite ?_
  by_cases hlen : len = 0
  · rw [if_pos hlen]
    exact Incremental.fail.needing (Reads.fail _)
  · rw [if_neg hlen]
    exact ((Incremental.take _).map _).needing
      ((Reads.take len.toNat).bind fun _ => Reads.zero (Incremental.pure _))

lemma incremental_readBinary : Incremental (readBinary x) :=
  incremental_readUint32.bind fun _ =>
    Incremental.fail.ite ((Incremental.take _).needing (Reads.take _))

lemma incremental_readMultiple {r : Read α} (hr : Incremental r) (used : ℕ) :
    Incremental (readMultiple r used) :=
  incremental_readUint32.bind fun _ => (incremental_readMany hr _ _).needing_one

lemma incremental_readNakedWstring : Incremental (readNakedWstring x) := by
  refine (incremental_nakedLoop _ _).bind fun buff => ?_
  split
  · exact Incremental.pure _
  · exact Incremental.fail

lemma incremental_readPropertyName : Incremental (readPropertyName x) :=
  incremental_readGuid.bind fun _ => incremental_readUint8.bind fun _ =>
    (incremental_readUint32.map _).ite
      (((incremental_readNakedWstring x).map _).ite Incremental.fail)

lemma incremental_readPropvalue (proptype : UInt16) (used : ℕ) :
    Incremental (readPropvalue x proptype used) := by
  unfold readPropvalue
  split
  · exact incremental_readUint16.map _
  · exact incremental_readUint32.map _
  · exact incremental_readUint32.map _
  · exact incremental_readUint32.map _
  · exact incremental_readUint64.map _
  · exact incremental_readUint64.map _
  · exact incremental_readUint16.map _
  · exact incremental_readUint64.map _
  · exact incremental_readUint64.map _
  · exact incremental_readUint64.map _
  · exact (incremental_readString x).map _
  · exact (incremental_readWstring x).map _
  · exact incremental_readGuid.map _
  · exact incremental_readSvreid.map _
  · exact (incremental_readBinary x).map _
  · exact (incremental_readBinary x).map _
  · exact (incremental_readArray incremental_readUint16 reads_readUint16).map _
  · exact (incremental_readArray incremental_readUint32 reads_readUint32).map _
  · exact (incremental_readArray incremental_readUint64 reads_readUint64).map _
  · exact (incremental_readMultiple (incremental_readString x) _).map _
  · exact (incremental_readMultiple (incremental_readWstring x) _).map _
  · exact incremental_readGuidArray.map _
  · exact (incremental_readMultiple (incremental_readBinary x) _).map _
  · exact Incremental.fail

lemma incremental_readPropval (propid proptype : UInt16) (used : ℕ) :
    Incremental (readPropval x propid proptype used) := by
  unfold readPropval
  exact (((incremental_readWstring x).map _).ite ((incremental_readString x).map _)).ite
    ((incremental_readPropvalue x _ _).map _)

lemma incremental_readPropid (propid : UInt16) : Incremental (readPropid x propid) := by
  refine Incremental.ite ((incremental_readPropertyName x).measured.bind fun y => ?_)
    (Incremental.pure _)
  dsimp only
  split
  · exact Incremental.pure _
  · exact Incremental.fail

lemma incremental_readBehind (atomElement : UInt32) : Incremental (readBehind x atomElement) := by
  refine (Incremental.pure _).ite ((incremental_readPropid x _).bind fun y => ?_)
  exact Incremental.needing_one ((incremental_readPropval x _ _ _).map _)

lemma incremental_readElement : Incremental (readElement x) :=
  (incremental_readUint32.bind fun _ => incremental_readBehind x _).needing_one

lemma reads_readElement : Reads 1 (readElement x) :=
  ((reads_readUint32.bind fun _ => Reads.zero (incremental_readBehind x _)).mono
    (by decide)).needing

lemma readElement_nil : readElement x [] = .error .wait := rfl

/-! ### The parser -/

variable {x} {σ : Type} {record : σ → Element → Option σ}

namespace Parser

/-- The loop reads what is behind the offset, and keeps what it does not read. -/
lemma processLoop_eq {n : ℕ} {pstream : Parser} {ctx : σ}
    (hoffset : pstream.offset ≤ pstream.file.length) :
    processLoop x record n pstream ctx =
      (scan (readElement x) (fun ctx e => record ctx (recorded x e)) n
        (pstream.file.drop pstream.offset) ctx).map fun y =>
          ((⟨pstream.file, pstream.file.length - y.2.length⟩ : Parser).truncateFd, y.1) := by
  induction n generalizing pstream ctx with
  | zero => rfl
  | succ n ih =>
    cases hp : readElement x (pstream.file.drop pstream.offset) with
    | error e =>
      cases e with
      | wait =>
        have hlen : pstream.file.length - (pstream.file.length - pstream.offset) =
            pstream.offset := by omega
        rw [scan_of_wait hp]
        simp only [processLoop, hp, Option.map_some, List.length_drop, hlen]
      | fail =>
        rw [scan_of_fail hp]
        simp only [processLoop, hp, Option.map_none]
    | ok y =>
      obtain ⟨e, rest⟩ := y
      have hsuffix := ((incremental_readElement x).suffix hp).trans (List.drop_suffix _ _)
      have hdrop : pstream.file.drop (pstream.file.length - rest.length) = rest :=
        (List.suffix_iff_eq_drop.mp hsuffix).symm
      rw [scan_of_ok hp]
      simp only [processLoop, hp]
      cases hrec : record ctx (recorded x e) with
      | none => rfl
      | some ctx =>
        rw [Option.bind_some, Option.bind_some, ih (by simp)]
        simp only [hdrop]

/-- What comes with a buffer is read together with what has been left. -/
lemma process_eq {pstream : Parser} {ctx : σ} :
    process x record pstream ctx =
      (consume (readElement x) (fun ctx e => record ctx (recorded x e)) pstream.file ctx).map
        fun y => ((⟨pstream.file, pstream.file.length - y.2.length⟩ : Parser).truncateFd, y.1) := by
  rw [process, processLoop_eq (Nat.zero_le _), consume, List.drop_zero]

/-- What is left goes to the front, where it fits into the buffer. -/
lemma truncateFd_eq {file rest : Bytes} (hrest : rest <:+ file)
    (hfits : rest = file ∨ rest.length ≤ 0x10000) :
    (⟨file, file.length - rest.length⟩ : Parser).truncateFd = ⟨rest, 0⟩ := by
  have hdrop : file.drop (file.length - rest.length) = rest :=
    (List.suffix_iff_eq_drop.mp hrest).symm
  have hle := hrest.length_le
  unfold truncateFd
  dsimp only
  split_ifs with hzero hall
  · rw [hzero, List.drop_zero] at hdrop
    rw [hzero, hdrop]
  · have hnil : rest = [] := List.length_eq_zero_iff.mp (by omega)
    rw [hnil]
  · have hlen : rest.length ≤ 0x10000 := by
      rcases hfits with rfl | hfits
      · omega
      · exact hfits
    rw [hdrop, List.take_of_length_le hlen]

lemma upload_eq {buffers : List Bytes} {left : Bytes} {ctx : σ}
    (hbuffers : ∀ b ∈ buffers, b.length < 2 ^ 16) (hleft : readElement x left = .error .wait) :
    upload x record buffers (⟨left, 0⟩, ctx) =
      (feed (readElement x) (fun ctx e => record ctx (recorded x e)) buffers (ctx, left)).map
        fun y => (⟨y.2, 0⟩, y.1) := by
  induction buffers generalizing left ctx with
  | nil => rfl
  | cons buffer buffers ih =>
    have hfile : ((⟨left, 0⟩ : Parser).writeBuffer buffer).file = left ++ buffer := rfl
    rw [upload, feed, process_eq, hfile]
    cases hc : consume (readElement x) (fun ctx e => record ctx (recorded x e)) (left ++ buffer)
        ctx with
    | none => rfl
    | some y =>
      obtain ⟨ctx', rest⟩ := y
      have hread := reads_readElement x
      have hincremental := incremental_readElement x
      have hlen := hbuffers buffer List.mem_cons_self
      have hfits : rest = left ++ buffer ∨ rest.length ≤ 0x10000 :=
        (consume_left hincremental hread hleft hc).imp_right fun h => by omega
      rw [Option.map_some, Option.bind_some, Option.bind_some,
        truncateFd_eq (suffix_of_consume hincremental hc) hfits]
      exact ih (fun b hb => hbuffers b (List.mem_cons_of_mem _ hb)) (wait_of_consume hread hc)

/-- **However a stream is cut into buffers**, an upload that goes through has recorded what is
recorded of the stream as a whole, and keeps what is left of it. -/
theorem consume_of_upload {buffers : List Bytes} {pstream : Parser} {ctx ctx' : σ}
    (hbuffers : ∀ b ∈ buffers, b.length < 2 ^ 16)
    (h : upload x record buffers (create, ctx) = some (pstream, ctx')) :
    consume (readElement x) (fun ctx e => record ctx (recorded x e)) buffers.flatten ctx =
      some (ctx', pstream.file) := by
  rw [create, upload_eq hbuffers (readElement_nil x)] at h
  obtain ⟨y, hy, hpstream⟩ := Option.map_eq_some_iff.mp h
  cases hpstream
  exact consume_of_feed (incremental_readElement x) (reads_readElement x) (readElement_nil x) hy

end Parser

namespace Parser

/-- The tags and markers, the last one first. -/
def recordTag (tags : List UInt32) : Element → Option (List UInt32)
  | .marker marker => some (marker :: tags)
  | .propval (.mk proptag _) => some (proptag :: tags)

/-- A marker, and a property whose value comes with the next buffer. -/
def tornUpload : List Bytes := [[3, 0, 9, 0x40, 3, 0, 1, 0], [42, 0, 0, 0]]

theorem consume_of_upload_torn :
    ∃ pstream ctx, upload ascii recordTag tornUpload (create, []) = some (pstream, ctx) ∧
      consume (readElement ascii) (fun ctx e => recordTag ctx (recorded ascii e))
        tornUpload.flatten [] = some (ctx, pstream.file) := by
  obtain ⟨⟨pstream, ctx⟩, h⟩ : ∃ y, upload ascii recordTag tornUpload (create, []) = some y :=
    Option.isSome_iff_exists.mp (by decide +kernel)
  exact ⟨pstream, ctx, h, consume_of_upload (by decide) h⟩

end Parser

end SteepSystem.Ftstreams
