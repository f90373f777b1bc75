import SteepSystem.Lib.Runs
import SteepSystem.Lib.Files
import SteepSystem.StreamObjects.Model

/-!
A stream object as a file. Calls that stay clear of the unsigned arithmetic, of copying a stream
onto itself and of a parent that refuses a stream which has already grown do to the objects what
they say of the files; in every run of such calls the position stays within the content, and the
content within its first length or the limit.
-/

namespace SteepSystem.StreamObjects

open SteepSystem.Lib SteepSystem.Lib.Runs

def StreamObject.toFile (s : StreamObject) : File :=
  ⟨s.content, s.seekPtr, s.maxLength, s.openFlags ≠ openstreamFlagReadonly⟩

/-- A write that a parent may have to agree to first. -/
def writeFile (parent : ParentType) (f : File) (data : List UInt8) (mem appended : Bool) :
    Bool × File :=
  if parent ≠ .folder ∧ ¬ appended then (false, f) else f.write data mem

/-- A seek from the start, from the position or from the end. -/
def seekFile (f : File) (opt : ℕ) (offset : ℤ) (mem : Bool) : Bool × File :=
  let base : ℤ := if opt = 0 then 0 else if opt = 1 then f.pos else f.bytes.length
  if opt > 2 ∨ offset > 0x7FFFFFFF ∨ offset < -0x7FFFFFFF then (false, f)
  else f.seek (base + offset) mem

/-- What a call means for the files; `parent` tells which streams have a parent to be asked. -/
def meant (parent : ℕ → ParentType) (f : ℕ → File) : Op → Result × (ℕ → File)
  | .read i bufLen => (.bytes ((f i).read bufLen).1, Function.update f i ((f i).read bufLen).2)
  | .write i data mem appended =>
    let r := writeFile (parent i) (f i) data mem appended
    (.size (if r.1 then data.length else 0), Function.update f i r.2)
  | .seek i opt offset mem =>
    (.ok (seekFile (f i) opt offset mem).1, Function.update f i (seekFile (f i) opt offset mem).2)
  | .setLength i length mem =>
    (.ok ((f i).setLength length mem).1, Function.update f i ((f i).setLength length mem).2)
  | .copy dst src length mem =>
    let rest := (f src).bytes.length - (f src).pos
    let room := (f dst).maxLength - (f dst).pos
    if rest = 0 ∨ room = 0 then (.copied true 0, f)
    else
      let k := min (min length rest) room
      let r := (f dst).write ((f src).read k).1 mem
      if r.1 then
        let f := Function.update f dst r.2
        (.copied true k, Function.update f src ((f src).read k).2)
      else (.copied false k, f)

/-- The sums of lengths and positions fit in 32 bits as far as the objects themselves go. -/
structure StreamObject.Sound (s : StreamObject) : Prop where
  seek : s.seekPtr ≤ s.content.length
  content : s.content.length < 2 ^ 32
  limit : s.maxLength < 2 ^ 32

lemma u32_natCast {n : ℕ} (h : n < 2 ^ 32) : u32 (n : ℤ) = n := by
  unfold u32
  omega

lemma u32_of_nonneg {n : ℤ} (h : 0 ≤ n) (hlt : n < 2 ^ 32) : u32 n = n.toNat := by
  unfold u32
  omega

variable {s : StreamObject}

theorem read_spec (h : s.Sound) {n : ℕ} (hn : n < 2 ^ 16)
    (hfits : s.content.length ≤ s.seekPtr ∨ s.seekPtr + n < 2 ^ 32) :
    ∃ s', streamObjectRead s n = some ((s.toFile.read n).1, s') ∧
      s'.toFile = (s.toFile.read n).2 ∧ s'.objectType = s.objectType := by
  have hseek := h.seek
  have hlen := h.content
  unfold streamObjectRead
  by_cases hend : s.content.length ≤ s.seekPtr
  · rw [if_pos hend]
    have hnil : (s.toFile.read n).1 = [] := by
      simp only [File.read, StreamObject.toFile]
      rw [List.drop_eq_nil_of_le hend, List.take_nil]
    refine ⟨s, by rw [hnil], ?_, rfl⟩
    simp [File.read, StreamObject.toFile, List.drop_eq_nil_of_le hend]
  rw [if_neg hend]
  have hsum : u32 ((s.seekPtr : ℤ) + n) = s.seekPtr + n := by
    rw [← Nat.cast_add]
    exact u32_natCast (hfits.resolve_left hend)
  -- The length taken is the rest of the content, or all that is asked for.
  set length := if u32 ((s.seekPtr : ℤ) + n) > s.content.length then
    (s.content.length - s.seekPtr) % 2 ^ 16 else n with hlength
  have hmin : length = min n (s.content.length - s.seekPtr) := by
    rw [hlength, hsum]
    split_ifs <;> omega
  have htake : (s.content.drop s.seekPtr).take length = (s.content.drop s.seekPtr).take n := by
    rw [List.take_eq_take_iff, List.length_drop, hmin]
    omega
  have hread : (((s.content.drop s.seekPtr).take n).length : ℕ) = length := by
    rw [List.length_take, List.length_drop, hmin]
  simp only [bytesAt, if_pos (show s.seekPtr + length ≤ s.content.length by omega), htake]
  refine ⟨_, rfl, ?_, rfl⟩
  simp only [File.read, StreamObject.toFile, hread]
  rw [← Nat.cast_add, u32_natCast (by omega)]

lemma allows_iff {n : ℕ} {mem : Bool} : s.toFile.Allows n mem ↔
    s.openFlags ≠ openstreamFlagReadonly ∧
      (n ≤ s.content.length ∨ n ≤ s.maxLength ∧ mem) := by
  simp [File.Allows, StreamObject.toFile]

theorem setLength_spec (h : s.Sound) (n : ℕ) (mem : Bool) :
    (streamObjectSetLength s n mem).1 = (s.toFile.setLength n mem).1 ∧
    (streamObjectSetLength s n mem).2.toFile = (s.toFile.setLength n mem).2 ∧
    (streamObjectSetLength s n mem).2.objectType = s.objectType := by
  have hseek := h.seek
  unfold streamObjectSetLength File.setLength
  simp only [allows_iff]
  by_cases hread : s.openFlags = openstreamFlagReadonly
  · rw [if_pos hread, if_neg (fun h => h.1 hread)]
    exact ⟨rfl, rfl, rfl⟩
  rw [if_neg hread]
  by_cases hgrow : n > s.content.length
  · rw [if_pos hgrow]
    by_cases hmax : n > s.maxLength
    · rw [if_pos hmax, if_neg (fun h => by omega)]
      exact ⟨rfl, rfl, rfl⟩
    rw [if_neg hmax]
    cases mem with
    | false =>
      rw [if_neg (by simp), if_neg (fun h => by simp at h; omega)]
      exact ⟨rfl, rfl, rfl⟩
    | true =>
      rw [if_pos rfl, if_pos ⟨hread, .inr ⟨by omega, rfl⟩⟩]
      refine ⟨rfl, ?_, rfl⟩
      simp only [StreamObject.toFile, File.resize]
      rw [List.take_of_length_le (by omega), Nat.min_eq_left (by omega)]
  · have hallow : s.openFlags ≠ openstreamFlagReadonly ∧
        (n ≤ s.content.length ∨ n ≤ s.maxLength ∧ mem = true) := ⟨hread, .inl (by omega)⟩
    rw [if_neg hgrow, if_pos hallow]
    refine ⟨rfl, ?_, rfl⟩
    simp only [StreamObject.toFile, File.resize]
    rw [show n - s.content.length = 0 by omega, List.replicate_zero, List.append_nil]
    congr 1
    split_ifs <;> omega

/-- Room asked for and refused. -/
lemma setLength_refused {n : ℕ} {mem : Bool} (hgrow : n > s.content.length)
    (h : ¬ s.toFile.Allows n mem) : streamObjectSetLength s n mem = (false, s) := by
  rw [allows_iff] at h
  rw [streamObjectSetLength]
  by_cases hread : s.openFlags = openstreamFlagReadonly
  · rw [if_pos hread]
  rw [if_neg hread, if_pos hgrow]
  by_cases hmax : n > s.maxLength
  · rw [if_pos hmax]
  · rw [if_neg hmax, if_neg fun hmem => h ⟨hread, .inr ⟨by omega, hmem⟩⟩]

/-- Room that is there, or is made, and the bytes written into it. -/
lemma grow_granted (h : s.Sound) (data : List UInt8) {mem : Bool}
    (hallow : s.content.length < s.seekPtr + data.length →
      s.toFile.Allows (s.seekPtr + data.length) mem) :
    ∃ content touched,
      (if s.seekPtr + data.length > s.content.length then
        streamObjectSetLength s (s.seekPtr + data.length) mem else (true, s)) =
        (true, { s with content := content, touched := touched }) ∧
      memcpyAt content s.seekPtr data = some (s.toFile.overwrite data) := by
  have hseek := h.seek
  by_cases hgrow : s.seekPtr + data.length > s.content.length
  · obtain ⟨hread, hin⟩ := allows_iff.mp (hallow hgrow)
    obtain ⟨hmax, hmem⟩ := hin.resolve_left (by omega)
    refine ⟨s.toFile.resize (s.seekPtr + data.length), true, ?_, ?_⟩
    · rw [if_pos hgrow, streamObjectSetLength, if_neg hread, if_pos hgrow, if_neg (by omega),
        if_pos hmem]
      simp only [File.resize, StreamObject.toFile]
      rw [List.take_of_length_le (by omega)]
    · rw [memcpyAt, if_pos (by rw [File.length_resize])]
      exact congrArg some (File.overwrite_resize (f := s.toFile) hseek (by simp [StreamObject.toFile]; omega))
  · refine ⟨s.content, s.touched, if_neg hgrow, ?_⟩
    rw [memcpyAt, if_pos (by omega)]
    rfl

/-- A write whose sums fit in 32 bits, and that does not grow the stream for a parent that then
refuses it. -/
def WriteFits (s : StreamObject) (data : List UInt8) (mem appended : Bool) : Prop :=
  data.length < 2 ^ 16 ∧
  (s.openFlags = openstreamFlagReadonly ∨
    s.maxLength ≤ s.content.length ∧ s.content.length ≤ s.seekPtr ∨
    s.seekPtr + data.length < 2 ^ 32 ∧
      (s.objectType = .folder ∨ appended ∨ s.seekPtr + data.length ≤ s.content.length ∨
        s.maxLength < s.seekPtr + data.length ∨ mem = false))

theorem write_spec (h : s.Sound) {data : List UInt8} {mem appended : Bool}
    (hfits : WriteFits s data mem appended) :
    ∃ s', streamObjectWrite s data mem appended = some
        (if (writeFile s.objectType s.toFile data mem appended).1 then data.length else 0, s') ∧
      s'.toFile = (writeFile s.objectType s.toFile data mem appended).2 ∧
      s'.objectType = s.objectType := by
  have hseek := h.seek
  have hcont := h.content
  obtain ⟨-, hfits⟩ := hfits
  unfold streamObjectWrite writeFile
  by_cases hread : s.openFlags = openstreamFlagReadonly
  · have hno : ¬ s.toFile.Allows (s.toFile.pos + data.length) mem := fun ha =>
      (allows_iff.mp ha).1 hread
    rw [if_pos hread, File.write, if_neg hno, ite_self]
    exact ⟨s, rfl, rfl, rfl⟩
  rw [if_neg hread]
  by_cases hfull : s.content.length ≥ s.maxLength ∧ s.seekPtr ≥ s.content.length
  · rw [if_pos hfull]
    cases data with
    | nil =>
      have hsame : s.toFile.write [] mem = (true, s.toFile) := by
        have ha : s.toFile.Allows (s.toFile.pos + ([] : List UInt8).length) mem :=
          allows_iff.mpr ⟨hread, .inl hseek⟩
        rw [File.write, if_pos ha]
        simp [File.overwrite]
      rw [hsame]
      refine ⟨s, ?_, ?_, rfl⟩ <;> split_ifs <;> rfl
    | cons b data =>
      have hno : ¬ s.toFile.Allows (s.toFile.pos + (b :: data).length) mem := by
        intro ha
        obtain ⟨-, hin | ⟨hmax, -⟩⟩ := allows_iff.mp ha
        · simp only [StreamObject.toFile, List.length_cons] at hin
          omega
        · simp only [StreamObject.toFile, List.length_cons] at hmax
          omega
      rw [File.write, if_neg hno, ite_self]
      exact ⟨s, rfl, rfl, rfl⟩
  rw [if_neg hfull]
  obtain ⟨hsum, happ⟩ := (hfits.resolve_left hread).resolve_left fun hf => hfull hf
  rw [← Nat.cast_add, u32_natCast hsum]
  by_cases hallow : s.content.length < s.seekPtr + data.length →
      s.toFile.Allows (s.seekPtr + data.length) mem
  · obtain ⟨content, touched, hgrown, hcopy⟩ := grow_granted h data hallow
    have hyes : s.toFile.Allows (s.toFile.pos + data.length) mem := by
      by_cases hin : s.content.length < s.seekPtr + data.length
      · exact hallow hin
      · exact allows_iff.mpr ⟨hread, .inl (not_lt.mp hin)⟩
    simp only [hgrown, not_true_eq_false, if_false]
    by_cases hparent : s.objectType ≠ .folder ∧ ¬ appended
    · -- The parent refuses: only a stream that has not grown is as it was.
      simp only [if_pos hparent]
      obtain ⟨hread', hin⟩ := allows_iff.mp hyes
      have hsmall : s.seekPtr + data.length ≤ s.content.length := by
        simp only [StreamObject.toFile] at hin
        rcases happ with h1 | h1 | h1 | h1 | h1
        · exact absurd h1 hparent.1
        · exact absurd h1 hparent.2
        · exact h1
        · omega
        · simpa [h1] using hin
      rw [if_neg (by omega)] at hgrown
      obtain ⟨-, hs⟩ := Prod.mk.inj hgrown
      exact ⟨s, by rw [← hs]; rfl, rfl, rfl⟩
    · simp only [if_neg hparent, hcopy, Option.map_some, File.write, if_pos hyes, if_true]
      exact ⟨_, rfl, rfl, rfl⟩
  · obtain ⟨hgrow, hno⟩ := Classical.not_imp.mp hallow
    have hno' : ¬ s.toFile.Allows (s.toFile.pos + data.length) mem := hno
    rw [if_pos hgrow, setLength_refused hgrow hno, File.write, if_neg hno', ite_self]
    exact ⟨s, rfl, rfl, rfl⟩

/-- A seek that no sum wraps around: not before the start but from the start itself, and not
forwards from the end unless it is refused there. -/
def SeekFits (s : StreamObject) (opt : ℕ) (offset : ℤ) (mem : Bool) : Prop :=
  opt > 2 ∨ offset > 0x7FFFFFFF ∨ offset < -0x7FFFFFFF ∨ opt = 0 ∨
  opt = 1 ∧ 0 ≤ s.seekPtr + offset ∧ s.seekPtr + offset < 2 ^ 32 ∨
  opt = 2 ∧ offset ≤ 0 ∧ 0 ≤ s.content.length + offset ∨
  opt = 2 ∧ 0 < offset ∧ (s.openFlags = openstreamFlagReadonly ∨
    s.content.length + offset < 2 ^ 32 ∧ (s.maxLength < s.content.length + offset ∨ mem = false))

/-- A seek past the end, once the sum has been taken. -/
lemma seek_grow (h : s.Sound) {n : ℕ} (hgrow : n > s.content.length) (mem : Bool) :
    ∃ b s', streamObjectSetLength s n mem = (b, s') ∧ (s.toFile.seek n mem).1 = b ∧
      (if b then { s' with seekPtr := n } else s').toFile = (s.toFile.seek n mem).2 ∧
      s'.objectType = s.objectType ∧ s'.seekPtr = s.seekPtr := by
  have hseek := h.seek
  obtain ⟨hb, hfile, htype⟩ := setLength_spec h n mem
  have hnot : ¬ ((n : ℤ) ≤ s.toFile.bytes.length) := by
    simp only [StreamObject.toFile]
    omega
  cases hres : streamObjectSetLength s n mem with
  | mk b s' =>
    rw [hres] at hb hfile htype
    refine ⟨b, s', rfl, ?_, ?_, htype, ?_⟩
    · rw [show b = _ from hb, File.seek, if_neg hnot, File.setLength, Int.toNat_natCast]
      split_ifs <;> rfl
    · rw [File.seek, if_neg hnot, Int.toNat_natCast]
      unfold File.setLength at hb hfile
      by_cases ha : s.toFile.Allows n mem
      · rw [if_pos ha] at hb hfile ⊢
        obtain rfl : b = true := hb
        exact congrArg (fun f : File => { f with pos := n }) hfile
      · rw [if_neg ha] at hb hfile ⊢
        obtain rfl : b = false := hb
        exact hfile
    · have hpos : s'.seekPtr = (s.toFile.setLength n mem).2.pos := congrArg File.pos hfile
      rw [hpos, File.setLength]
      split_ifs
      · exact Nat.min_eq_left (by simp only [StreamObject.toFile]; omega)
      · rfl

lemma seek_inside {n : ℕ} (hin : n ≤ s.content.length) (target : ℤ) (htarget : target.toNat = n)
    (mem : Bool) : ({ s with seekPtr := n } : StreamObject).toFile = (s.toFile.seek target mem).2 ∧
      (s.toFile.seek target mem).1 = true := by
  have hle : target ≤ s.toFile.bytes.length := by
    simp only [StreamObject.toFile]
    omega
  rw [File.seek, if_pos hle, htarget]
  exact ⟨rfl, rfl⟩

theorem seek_spec (h : s.Sound) {opt : ℕ} {offset : ℤ} {mem : Bool}
    (hfits : SeekFits s opt offset mem) :
    (ropSeekstream s opt offset mem).1 = (seekFile s.toFile opt offset mem).1 ∧
    (ropSeekstream s opt offset mem).2.toFile = (seekFile s.toFile opt offset mem).2 ∧
    (ropSeekstream s opt offset mem).2.objectType = s.objectType := by
  have hseek := h.seek
  have hcont := h.content
  unfold ropSeekstream seekFile
  by_cases hopt : opt > 2
  · rw [if_pos hopt, if_pos (.inl hopt)]
    exact ⟨rfl, rfl, rfl⟩
  rw [if_neg hopt]
  by_cases hrange : offset > 0x7FFFFFFF ∨ offset < -0x7FFFFFFF
  · rw [if_pos hrange, if_pos (.inr hrange)]
    exact ⟨rfl, rfl, rfl⟩
  rw [if_neg hrange, if_neg (by rintro (h1 | h1); exacts [hopt h1, hrange h1])]
  rw [not_or, not_lt, not_lt] at hrange
  obtain rfl | rfl | rfl : opt = 0 ∨ opt = 1 ∨ opt = 2 := by omega
  · -- From the start.
    simp only [streamObjectSeek, if_true, zero_add]
    by_cases hneg : offset ≤ 0
    · rw [if_pos hneg]
      obtain ⟨hfile, hb⟩ := @seek_inside s 0 (Nat.zero_le _) offset (by omega) mem
      exact ⟨hb.symm, hfile, rfl⟩
    rw [if_neg hneg, u32_of_nonneg (by omega) (by omega)]
    by_cases hgrow : offset.toNat > s.content.length
    · obtain ⟨b, s', hset, hb, hfile, htype, -⟩ := seek_grow h hgrow mem
      rw [Int.toNat_of_nonneg (by omega)] at hb hfile
      rw [if_pos hgrow, hset]
      cases b with
      | false => exact ⟨hb.symm, hfile, htype⟩
      | true => exact ⟨hb.symm, hfile, htype⟩
    · rw [if_neg hgrow]
      obtain ⟨hfile, hb⟩ := seek_inside (not_lt.mp hgrow) offset rfl mem
      exact ⟨hb.symm, hfile, rfl⟩
  · -- From the position.
    have hsum : 0 ≤ s.seekPtr + offset ∧ s.seekPtr + offset < 2 ^ 32 := by
      rcases hfits with h1 | h1 | h1 | h1 | h1 | h1 | h1 <;> omega
    simp only [streamObjectSeek]
    rw [Int.add_comm offset, u32_of_nonneg hsum.1 hsum.2, if_neg (Nat.not_lt_zero _)]
    by_cases hneg : offset < 0
    · rw [if_pos hneg]
      obtain ⟨hfile, hb⟩ := @seek_inside s _ (show (s.seekPtr + offset).toNat ≤ _ by omega) _ rfl mem
      exact ⟨hb.symm, hfile, rfl⟩
    rw [if_neg hneg]
    by_cases hgrow : (s.seekPtr + offset).toNat > s.content.length
    · obtain ⟨b, s', hset, hb, hfile, htype, hsame⟩ := seek_grow h hgrow mem
      rw [Int.toNat_of_nonneg hsum.1] at hb hfile
      rw [if_pos hgrow, hset]
      cases b with
      | false => exact ⟨hb.symm, hfile, htype⟩
      | true =>
        simp only [hsame, u32_of_nonneg hsum.1 hsum.2]
        exact ⟨hb.symm, hfile, htype⟩
    · rw [if_neg hgrow]
      obtain ⟨hfile, hb⟩ := seek_inside (not_lt.mp hgrow) (s.seekPtr + offset) rfl mem
      exact ⟨hb.symm, hfile, rfl⟩
  · -- From the end.
    have hbase : (if 2 = 0 then (0 : ℤ) else if 2 = 1 then (s.toFile.pos : ℤ)
        else s.toFile.bytes.length) = s.content.length := rfl
    simp only [streamObjectSeek, hbase]
    by_cases hpos : 0 < offset
    · -- Only a refusal does not come to the second addition.
      have hrefused : s.openFlags = openstreamFlagReadonly ∨
          s.content.length + offset < 2 ^ 32 ∧
            (s.maxLength < s.content.length + offset ∨ mem = false) := by
        rcases hfits with h1 | h1 | h1 | h1 | h1 | h1 | h1
        all_goals first
          | exact h1.2.2
          | omega
      have hno : s.content.length + offset < 2 ^ 32 →
          ¬ s.toFile.Allows (s.content.length + offset).toNat mem := by
        intro hlt ha
        obtain ⟨hread, hin | ⟨hmax, hmem⟩⟩ := allows_iff.mp ha
        · omega
        · rcases hrefused with h1 | ⟨-, h1 | h1⟩
          · exact hread h1
          · omega
          · exact absurd hmem (by simp [h1])
      have hset : streamObjectSetLength s (u32 (s.content.length + offset)) mem = (false, s) := by
        by_cases hread : s.openFlags = openstreamFlagReadonly
        · rw [streamObjectSetLength, if_pos hread]
        · have hlt := (hrefused.resolve_left hread).1
          rw [u32_of_nonneg (by omega) hlt]
          exact setLength_refused (by omega) (hno hlt)
      have hfile : s.toFile.seek (s.content.length + offset) mem = (false, s.toFile) := by
        have hnot : ¬ ((s.content.length : ℤ) + offset ≤ s.toFile.bytes.length) := by
          simp only [StreamObject.toFile]
          omega
        rw [File.seek, if_neg hnot, if_neg]
        intro ha
        obtain ⟨hread, -⟩ := allows_iff.mp ha
        exact hno (hrefused.resolve_left hread).1 ha
      simp only [if_pos hpos, hset, hfile]
      exact ⟨trivial, trivial, trivial⟩
    · have hsum : 0 ≤ s.content.length + offset := by
        rcases hfits with h1 | h1 | h1 | h1 | h1 | h1 | h1 <;> omega
      simp only [if_neg hpos, Nat.not_lt_zero, if_false, u32_of_nonneg hsum
        (show (s.content.length : ℤ) + offset < 2 ^ 32 by omega)]
      obtain ⟨hfile, hb⟩ :=
        @seek_inside s _ (show (s.content.length + offset).toNat ≤ _ by omega) _ rfl mem
      exact ⟨hb.symm, hfile, trivial⟩

/-- The bytes left to read. -/
def StreamObject.rest (s : StreamObject) : ℕ := s.content.length - s.seekPtr

/-- The bytes that may be written before the limit. -/
def StreamObject.room (s : StreamObject) : ℕ := s.maxLength - s.seekPtr

/-- A copy between two streams whose sums fit in 32 bits, or are cut back to what they should
have been; a read-only target only where the copy asks for room. -/
def CopyFits (w : ℕ → StreamObject) (dst src n : ℕ) : Prop :=
  n < 2 ^ 32 ∧
  ((w src).rest = 0 ∨ (w dst).room = 0 ∨
    ((w dst).openFlags ≠ openstreamFlagReadonly ∨
      (w dst).content.length < (w dst).seekPtr + min (min n (w src).rest) (w dst).room) ∧
    (n = 0 ∨ dst ≠ src ∧
      ((w src).seekPtr + n < 2 ^ 32 ∧ (w dst).seekPtr + min n (w src).rest < 2 ^ 32 ∨
        2 ^ 32 ≤ (w src).seekPtr + n ∧ (w dst).maxLength < (w dst).seekPtr + n ∧
          (w dst).seekPtr + n < 2 ^ 32 ∧ (w dst).room ≤ (w src).rest)))

/-- The length that the two cuts of `stream_object_copy` leave. -/
lemma copy_length {w : ℕ → StreamObject} (h : ∀ i, (w i).Sound) {dst src n : ℕ} (hn : n < 2 ^ 32)
    (hsum : (w src).seekPtr + n < 2 ^ 32 ∧ (w dst).seekPtr + min n (w src).rest < 2 ^ 32 ∨
        2 ^ 32 ≤ (w src).seekPtr + n ∧ (w dst).maxLength < (w dst).seekPtr + n ∧
          (w dst).seekPtr + n < 2 ^ 32 ∧ (w dst).room ≤ (w src).rest) {length : ℕ}
    (hlength : length = if u32 ((w src).seekPtr + n) > (w src).content.length then
      (w src).content.length - (w src).seekPtr else n) :
    (if u32 ((w dst).seekPtr + length) > (w dst).maxLength then
      (w dst).maxLength - (w dst).seekPtr else length) =
      min (min n (w src).rest) (w dst).room := by
  have hsrc := (h src).seek
  have hlen := (h src).content
  have hmax := (h dst).limit
  unfold StreamObject.rest StreamObject.room at *
  rcases hsum with ⟨h1, h2⟩ | ⟨h1, h2, h3, h4⟩
  · have hl : length = min n ((w src).content.length - (w src).seekPtr) := by
      rw [hlength, ← Nat.cast_add, u32_natCast h1]
      split_ifs <;> omega
    rw [← Nat.cast_add, u32_natCast (by omega), hl]
    split_ifs <;> omega
  · -- The first sum wraps around to below the position, so only the second cut is made.
    have hwrap : u32 ((w src).seekPtr + n) = (w src).seekPtr + n - 2 ^ 32 := by
      unfold u32
      omega
    have hl : length = n := by
      rw [hlength, hwrap, if_neg (by omega)]
    rw [hl, ← Nat.cast_add, u32_natCast h3, if_pos (by omega)]
    omega

/-- The copying proper, once both lengths are cut and room is made in the target. -/
lemma copy_move {w : ℕ → StreamObject} {dst src k : ℕ} {g : StreamObject} {data content : List UInt8}
    (hds : dst ≠ src) (hbytes : bytesAt (w src).content (w src).seekPtr k = some data)
    (hcopy : memcpyAt g.content g.seekPtr data = some content)
    (hsrc : (w src).seekPtr + k < 2 ^ 32) (hdst : g.seekPtr + k < 2 ^ 32) :
    copyBytes (Function.update w dst g) dst src k = some (Function.update
      (Function.update w dst { g with content := content, seekPtr := g.seekPtr + k }) src
      { w src with seekPtr := (w src).seekPtr + k }) := by
  have hsd : src ≠ dst := hds.symm
  simp only [copyBytes, Function.update_self, Function.update_of_ne hsd, hbytes, hcopy,
    ← Nat.cast_add, u32_natCast hsrc, u32_natCast hdst, Option.bind_eq_bind, Option.bind_some,
    Option.pure_def, Function.update_idem]

/-- Copying no bytes changes nothing. -/
lemma copyBytes_zero {w : ℕ → StreamObject} (h : ∀ i, (w i).Sound) (dst src : ℕ) :
    copyBytes w dst src 0 = some w := by
  have hu : ∀ i, u32 ((w i).seekPtr + (0 : ℕ)) = (w i).seekPtr := fun i => by
    rw [← Nat.cast_add]
    exact u32_natCast (((h i).seek).trans_lt (h i).content)
  have hbytes : bytesAt (w src).content (w src).seekPtr 0 = some [] := by
    have hin : (w src).seekPtr + 0 ≤ (w src).content.length := (h src).seek
    rw [bytesAt, if_pos hin, List.take_zero]
  have hcopy : memcpyAt (w dst).content (w dst).seekPtr [] = some (w dst).content := by
    have hin : (w dst).seekPtr + ([] : List UInt8).length ≤ (w dst).content.length := (h dst).seek
    rw [memcpyAt, if_pos hin]
    simp
  simp only [copyBytes, hbytes, hcopy, hu, Option.bind_eq_bind, Option.bind_some, Option.pure_def,
    Function.update_eq_self]

theorem copy_spec {w : ℕ → StreamObject} (h : ∀ i, (w i).Sound) {dst src n : ℕ} {mem : Bool}
    (parent : ℕ → ParentType) (hfits : CopyFits w dst src n) :
    ∃ r w', exec w (.copy dst src n mem) = some (r, w') ∧
      meant parent (fun i => (w i).toFile) (.copy dst src n mem) =
        (r, fun i => (w' i).toFile) ∧ ∀ i, (w' i).objectType = (w i).objectType := by
  obtain ⟨hn, hfits⟩ := hfits
  have hsrc := (h src).seek
  have hdst := (h dst).seek
  have hmax := (h dst).limit
  simp only [exec, streamObjectCopy, meant]
  by_cases hrest : (w src).rest = 0
  · have h1 : (w src).seekPtr ≥ (w src).content.length := Nat.sub_eq_zero_iff_le.mp hrest
    have h2 : (w src).toFile.bytes.length - (w src).toFile.pos = 0 := hrest
    rw [if_pos h1, if_pos (.inl h2)]
    exact ⟨_, w, rfl, rfl, fun _ => rfl⟩
  by_cases hroom : (w dst).room = 0
  · have h1 : (w dst).seekPtr ≥ (w dst).maxLength := Nat.sub_eq_zero_iff_le.mp hroom
    have h2 : (w dst).toFile.maxLength - (w dst).toFile.pos = 0 := hroom
    rw [if_neg (fun hle => hrest (Nat.sub_eq_zero_of_le hle)), if_pos h1, if_pos (.inr h2)]
    exact ⟨_, w, rfl, rfl, fun _ => rfl⟩
  obtain ⟨hwrite, hsum⟩ := (hfits.resolve_left hrest).resolve_left hroom
  have hnot : ¬ ((w src).toFile.bytes.length - (w src).toFile.pos = 0 ∨
      (w dst).toFile.maxLength - (w dst).toFile.pos = 0) := not_or.mpr ⟨hrest, hroom⟩
  have hsum' := hsum
  replace hsum : (w src).seekPtr + n < 2 ^ 32 ∧ (w dst).seekPtr + min n (w src).rest < 2 ^ 32 ∨
      2 ^ 32 ≤ (w src).seekPtr + n ∧ (w dst).maxLength < (w dst).seekPtr + n ∧
        (w dst).seekPtr + n < 2 ^ 32 ∧ (w dst).room ≤ (w src).rest := by
    rcases hsum with rfl | ⟨-, hsum⟩
    · have := (h src).content
      have := (h dst).content
      exact .inl ⟨by omega, by omega⟩
    · exact hsum
  rw [if_neg (fun hle => hrest (Nat.sub_eq_zero_of_le hle)),
    if_neg (fun hle => hroom (Nat.sub_eq_zero_of_le hle)), if_neg hnot,
    copy_length h hn hsum rfl]
  obtain ⟨k, hk⟩ : ∃ k, k = min (min n (w src).rest) (w dst).room := ⟨_, rfl⟩
  have hkrest : (w src).seekPtr + k ≤ (w src).content.length := by
    unfold StreamObject.rest at hk
    omega
  have hkroom : (w dst).seekPtr + k ≤ (w dst).maxLength := by
    unfold StreamObject.room at hk hroom
    omega
  have hkzero : n = 0 → k = 0 := by omega
  have hfile : min (min n ((w src).toFile.bytes.length - (w src).toFile.pos))
      ((w dst).toFile.maxLength - (w dst).toFile.pos) = k := hk.symm
  rw [← hk] at hwrite ⊢
  rw [hfile, ← Nat.cast_add, u32_natCast (hkroom.trans_lt hmax)]
  clear hsum hfile hk hnot
  obtain ⟨data, hdata⟩ : ∃ data, data = ((w src).content.drop (w src).seekPtr).take k := ⟨_, rfl⟩
  have hdlen : data.length = k := by
    rw [hdata, List.length_take, List.length_drop]
    omega
  have hbytes : bytesAt (w src).content (w src).seekPtr k = some data := by
    rw [bytesAt, if_pos hkrest, hdata]
  have hfdata : ((w src).toFile.read k).1 = data := hdata.symm
  rw [hfdata]
  by_cases hallow : (w dst).content.length < (w dst).seekPtr + data.length →
      (w dst).toFile.Allows ((w dst).seekPtr + data.length) mem
  · obtain ⟨content, touched, hgrown, hcopy⟩ := grow_granted (h dst) data hallow
    have hyes : (w dst).toFile.Allows ((w dst).toFile.pos + data.length) mem := by
      by_cases hin : (w dst).content.length < (w dst).seekPtr + data.length
      · exact hallow hin
      · rw [hdlen] at hin
        refine allows_iff.mpr ⟨hwrite.resolve_right hin, .inl ?_⟩
        rw [hdlen]
        exact not_lt.mp hin
    rw [hdlen] at hgrown
    rw [hgrown, File.write, if_pos hyes]
    simp only [not_true_eq_false, if_false, if_true]
    rcases hsum' with hzero | ⟨hds, -⟩
    · -- Nothing is copied, and the target may be the source.
      obtain rfl := hkzero hzero
      have hd : data = [] := List.eq_nil_of_length_eq_zero hdlen
      have hsmall : ¬ (w dst).seekPtr + 0 > (w dst).content.length := not_lt.mpr hdst
      rw [if_neg hsmall] at hgrown
      rw [← (Prod.mk.inj hgrown).2, Function.update_eq_self, copyBytes_zero h]
      refine ⟨_, w, rfl, ?_, fun _ => rfl⟩
      congr 1
      funext i
      subst hd
      by_cases his : i = src
      · subst his
        by_cases hid : i = dst
        · subst hid
          simp [StreamObject.toFile, File.overwrite, File.read]
        · simp [hid, File.read]
      · by_cases hid : i = dst
        · subst hid
          simp [his, File.overwrite]
        · simp [his, hid]
    · rw [copy_move (g := { w dst with content := content, touched := touched }) hds hbytes hcopy
        (hkrest.trans_lt (h src).content) (hkroom.trans_lt hmax)]
      refine ⟨_, _, rfl, ?_, ?_⟩
      · congr 1
        funext i
        by_cases his : i = src
        · subst his
          have hread : ((w i).toFile.read k).2 =
              { (w i).toFile with pos := (w i).toFile.pos + k } := by
            rw [← hdlen, ← hfdata]
            simp [File.read]
          simp only [Function.update_self, Function.update_of_ne hds.symm, hread]
          rfl
        · by_cases hid : i = dst
          · subst hid
            simp [hds, StreamObject.toFile, hdlen]
          · simp [his, hid]
      · intro i
        by_cases his : i = src
        · subst his
          simp
        · by_cases hid : i = dst
          · subst hid
            simp [his]
          · simp [his, hid]
  · obtain ⟨hgrow, hno⟩ := Classical.not_imp.mp hallow
    have hno' : ¬ (w dst).toFile.Allows ((w dst).toFile.pos + data.length) mem := hno
    rw [hdlen] at hgrow hno
    rw [if_pos hgrow, setLength_refused hgrow hno, File.write, if_neg hno']
    exact ⟨_, w, rfl, rfl, fun _ => rfl⟩

end SteepSystem.StreamObjects
