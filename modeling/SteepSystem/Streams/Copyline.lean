import SteepSystem.Lib.Lines
import SteepSystem.Streams.Pointers

/-!
Reading a stream line by line into a buffer. A call looks at the block of the reader and the one
after it, and skips a line feed that the stream begins with.
-/

namespace SteepSystem.Streams

open SteepSystem.Lib SteepSystem.Lib.Lines SteepSystem.Lib.Runs

inductive CopyResult
  | ok
  | part
  | term
  | eof
  deriving DecidableEq

/-- The loop that looks for the end of a line; so many bytes follow. -/
def scanEnd (pdata : Block) : ℕ → ℕ → ℕ × Option UInt8
  | i, 0 => (i, none)
  | i, left + 1 =>
    if pdata i = lf then (i, some lf)
    else if pdata i = cr then (i, some cr)
    else scanEnd pdata (i + 1) left

namespace Stream

/-- The reader goes on in its block. -/
def goOn (s : Stream) (n : ℕ) : Stream :=
  { s with rdBlockPos := s.rdBlockPos + n, rdTotalPos := s.rdTotalPos + n }

def skipLf (s : Stream) : Stream :=
  if s.rdTotalPos = 0 ∧ s.block s.pnodeRd 0 = lf then { s with rdBlockPos := 1, rdTotalPos := 1 }
  else s

/-- The reader is in the last block. -/
def copyLast (s : Stream) (bufSize : ℕ) : CopyResult × List UInt8 × Stream :=
  let stop := s.wrTotalPos % streamBlockSize
  let pdata := s.block s.pnodeRd
  let (i, state) := scanEnd pdata s.rdBlockPos (stop - s.rdBlockPos)
  let actualSize := i - s.rdBlockPos
  if bufSize < actualSize then (.part, pdata.read s.rdBlockPos bufSize, s.goOn bufSize)
  else
    let pbuff := pdata.read s.rdBlockPos actualSize
    if i = stop then
      (.term, pbuff, { s with rdBlockPos := stop, rdTotalPos := s.wrTotalPos })
    else if state = some lf ∨ i + 1 = stop then (.ok, pbuff, s.goOn (actualSize + 1))
    else if pdata (i + 1) = lf then (.ok, pbuff, s.goOn (actualSize + 2))
    else (.ok, pbuff, s.goOn (actualSize + 1))

/-- The line ends in the block of the reader, which is not the last one. -/
def copyFirst (s : Stream) (bufSize i : ℕ) (state : Option UInt8) :
    CopyResult × List UInt8 × Stream :=
  let pdata := s.block s.pnodeRd
  let actualSize := i - s.rdBlockPos
  if bufSize < actualSize then (.part, pdata.read s.rdBlockPos bufSize, s.goOn bufSize)
  else
    let pbuff := pdata.read s.rdBlockPos actualSize
    if state = some lf then
      let t := s.goOn (actualSize + 1)
      (.ok, pbuff,
        if t.rdBlockPos = streamBlockSize then { t with pnodeRd := t.pnodeRd + 1, rdBlockPos := 0 }
        else t)
    else if state = some cr then
      if i + 1 = streamBlockSize then
        if s.block (s.pnodeRd + 1) 0 = lf then
          (.ok, pbuff, { s with
            pnodeRd := s.pnodeRd + 1
            rdBlockPos := 1
            rdTotalPos := s.rdTotalPos + (actualSize + 2) })
        else
          (.ok, pbuff, { s with
            pnodeRd := s.pnodeRd + 1
            rdBlockPos := 0
            rdTotalPos := s.rdTotalPos + (actualSize + 1) })
      else if pdata (i + 1) ≠ lf then (.ok, pbuff, s.goOn (actualSize + 1))
      else if i + 2 = streamBlockSize then
        (.ok, pbuff, { s with
          pnodeRd := s.pnodeRd + 1
          rdBlockPos := 0
          rdTotalPos := s.rdTotalPos + (actualSize + 2) })
      else (.ok, pbuff, s.goOn (actualSize + 2))
    else (.ok, pbuff, s)

/-- The line goes on in the block behind the one of the reader. -/
def copySecond (s : Stream) (bufSize : ℕ) : CopyResult × List UInt8 × Stream :=
  let first := streamBlockSize - s.rdBlockPos
  let pdata := s.block s.pnodeRd
  let second := s.block (s.pnodeRd + 1)
  let stop := if s.pnodeRd + 1 = s.pnodeWr then s.wrTotalPos % streamBlockSize else streamBlockSize
  let (i, state) := scanEnd second 0 stop
  let actualSize := first + i
  if bufSize < actualSize then
    if first ≤ bufSize then
      (.part, pdata.read s.rdBlockPos first ++ second.read 0 (bufSize - first), { s with
        pnodeRd := s.pnodeRd + 1
        rdBlockPos := bufSize - first
        rdTotalPos := s.rdTotalPos + bufSize })
    else (.part, pdata.read s.rdBlockPos bufSize, s.goOn bufSize)
  else
    let pbuff := pdata.read s.rdBlockPos first ++ second.read 0 i
    -- the positions of the reader stay where they were
    if i = stop then (.term, pbuff, { s with pnodeRd := s.pnodeRd + 1 })
    else if state = some lf ∨ s.rdTotalPos + actualSize + 1 = s.wrTotalPos then
      (.ok, pbuff, { s with
        pnodeRd := s.pnodeRd + 1
        rdBlockPos := i + 1
        rdTotalPos := s.rdTotalPos + (actualSize + 1) })
    -- behind the block if the carriage return is its last byte
    else if second (i + 1) = lf then
      (.ok, pbuff, { s with
        pnodeRd := s.pnodeRd + 1
        rdBlockPos := i + 2
        rdTotalPos := s.rdTotalPos + (actualSize + 2) })
    else
      (.ok, pbuff, { s with
        pnodeRd := s.pnodeRd + 1
        rdBlockPos := i + 1
        rdTotalPos := s.rdTotalPos + (actualSize + 1) })

def copyFrom (s : Stream) (bufSize : ℕ) : CopyResult × List UInt8 × Stream :=
  if s.pnodeRd = s.pnodeWr then s.copyLast bufSize
  else
    let (i, state) :=
      scanEnd (s.block s.pnodeRd) s.rdBlockPos (streamBlockSize - s.rdBlockPos)
    if i ≠ streamBlockSize then s.copyFirst bufSize i state else s.copySecond bufSize

/-- One byte of the buffer is kept for a zero. The size of the buffer is an `int`, and copied as if
it was large where it is below zero. -/
def copyline (s : Stream) (size : ℕ) : Option (CopyResult × List UInt8 × Stream) :=
  if s.wrTotalPos ≤ s.rdTotalPos then some (.eof, [], s)
  else if size = 0 ∨ 2 ^ 31 ≤ size then none
  else some (s.skipLf.copyFrom (size - 1))

end Stream

def CopyResult.status : CopyResult → Status
  | .ok => .ended
  | .part => .part
  | .term => .last
  | .eof => .nothing

namespace Stream

variable {s : Stream} {t : Tape UInt8} {bufSize : ℕ}

lemma scanEnd_cases (pdata : Block) (i left : ℕ) :
    (scanEnd pdata i left = (i + left, none) ∧
      ∀ j, i ≤ j → j < i + left → ¬ IsEnd cr lf (pdata j)) ∨
    ∃ j, i ≤ j ∧ j < i + left ∧ (∀ m, i ≤ m → m < j → ¬ IsEnd cr lf (pdata m)) ∧
      IsEnd cr lf (pdata j) ∧ scanEnd pdata i left = (j, some (pdata j)) := by
  induction left generalizing i with
  | zero => exact .inl ⟨rfl, fun j hle hlt => absurd hlt (by omega)⟩
  | succ left ih =>
    by_cases hend : IsEnd cr lf (pdata i)
    · refine .inr ⟨i, le_rfl, by omega, fun m hle hlt => absurd hlt (by omega), hend, ?_⟩
      rw [scanEnd]
      by_cases hlf : pdata i = lf
      · rw [if_pos hlf, hlf]
      · rw [if_neg hlf, if_pos (hend.resolve_right hlf), hend.resolve_right hlf]
    · have hstep : scanEnd pdata i (left + 1) = scanEnd pdata (i + 1) left := by
        rw [scanEnd, if_neg fun h => hend (.inr h), if_neg fun h => hend (.inl h)]
      have hfirst : ∀ m, i ≤ m → ¬ i + 1 ≤ m → ¬ IsEnd cr lf (pdata m) := by
        intro m hle hnot
        obtain rfl : m = i := by omega
        exact hend
      rw [hstep]
      rcases ih (i + 1) with ⟨hscan, hnone⟩ | ⟨j, hle, hlt, hnone, hj, hscan⟩
      · refine .inl ⟨by rw [hscan]; congr 1; omega, fun m hle hlt => ?_⟩
        by_cases hm : i + 1 ≤ m
        · exact hnone m hm (by omega)
        · exact hfirst m hle hm
      · refine .inr ⟨j, by omega, by omega, fun m hle hlt => ?_, hj, hscan⟩
        by_cases hm : i + 1 ≤ m
        · exact hnone m hm hlt
        · exact hfirst m hle hm

/-! ### The pieces -/

/-- A call of the reader: a piece of what is left to read, and a reader that goes on behind it. -/
structure Reads (s : Stream) (bufSize : ℕ) (out : CopyResult × List UInt8 × Stream) : Prop where
  writer : SameWriter s out.2.2
  place : out.2.2.rdTotalPos = out.2.2.pnodeRd * streamBlockSize + out.2.2.rdBlockPos
  pos : out.2.2.rdBlockPos ≤ streamBlockSize
  le : s.rdTotalPos ≤ out.2.2.rdTotalPos ∧ out.2.2.rdTotalPos ≤ s.wrTotalPos
  piece : Piece cr lf bufSize (s.content.drop s.rdTotalPos) out.1.status out.2.1
    (s.content.drop out.2.2.rdTotalPos)

/-- The position behind a line of the stream. -/
def behind (s : Stream) (pos : ℕ) : ℕ :=
  if s.byteAt pos = cr ∧ pos + 1 < s.wrTotalPos ∧ s.byteAt (pos + 1) = lf then pos + 2 else pos + 1

lemma past_content {pos : ℕ} (h : pos < s.wrTotalPos) : past cr lf s.content pos = s.behind pos := by
  have hnext : s.content[pos + 1]? = some lf ↔ pos + 1 < s.wrTotalPos ∧ s.byteAt (pos + 1) = lf := by
    by_cases hlt : pos + 1 < s.wrTotalPos
    · rw [content_getElem? hlt]
      simp [hlt]
    · rw [List.getElem?_eq_none (by rw [length_content]; omega)]
      exact iff_of_false nofun fun hp => hlt hp.1
  unfold past behind
  by_cases hcond : s.byteAt pos = cr ∧ pos + 1 < s.wrTotalPos ∧ s.byteAt (pos + 1) = lf
  · rw [if_pos hcond, if_pos ⟨by rw [content_getElem? h, hcond.1], hnext.mpr hcond.2⟩]
  · rw [if_neg hcond, if_neg]
    rintro ⟨hcr, hlf⟩
    rw [content_getElem? h] at hcr
    exact hcond ⟨Option.some.inj hcr, hnext.mp hlf⟩

lemma not_isEnd_content {read pos : ℕ} (h : ∀ i, read ≤ i → i < pos → ¬ IsEnd cr lf (s.byteAt i)) :
    ∀ i, read ≤ i → i < pos → ∀ x, s.content[i]? = some x → ¬ IsEnd cr lf x := by
  intro i hri hi x hx
  have hlt : i < s.wrTotalPos := by
    have := (List.getElem?_eq_some_iff.mp hx).1
    rwa [length_content] at this
  rw [content_getElem? hlt] at hx
  cases hx
  exact h i hri hi

lemma piece_ok {pos : ℕ} (hle : s.rdTotalPos ≤ pos) (hlt : pos < s.wrTotalPos)
    (hend : IsEnd cr lf (s.byteAt pos))
    (hline : ∀ i, s.rdTotalPos ≤ i → i < pos → ¬ IsEnd cr lf (s.byteAt i))
    (hfits : pos - s.rdTotalPos ≤ bufSize) :
    Piece cr lf bufSize (s.content.drop s.rdTotalPos) .ended
      ((s.content.drop s.rdTotalPos).take (pos - s.rdTotalPos)) (s.content.drop (s.behind pos)) := by
  rw [← past_content hlt]
  exact piece_ended hle (content_getElem? hlt) hend (not_isEnd_content hline) hfits

lemma piece_more {pos : ℕ} (hlt : s.rdTotalPos + bufSize < pos) (hle : pos ≤ s.wrTotalPos)
    (hline : ∀ i, s.rdTotalPos ≤ i → i < pos → ¬ IsEnd cr lf (s.byteAt i)) :
    Piece cr lf bufSize (s.content.drop s.rdTotalPos) .part
      ((s.content.drop s.rdTotalPos).take bufSize) (s.content.drop (s.rdTotalPos + bufSize)) := by
  refine piece_part (by rw [length_content]; omega) fun i hri hi => ?_
  exact not_isEnd_content hline i hri (by omega)

lemma scan_block (k i left : ℕ) (h : i + left ≤ streamBlockSize) :
    (scanEnd (s.block k) i left = (i + left, none) ∧
      ∀ m, k * streamBlockSize + i ≤ m → m < k * streamBlockSize + (i + left) →
        ¬ IsEnd cr lf (s.byteAt m)) ∨
    ∃ j, i ≤ j ∧ j < i + left ∧
      (∀ m, k * streamBlockSize + i ≤ m → m < k * streamBlockSize + j →
        ¬ IsEnd cr lf (s.byteAt m)) ∧
      IsEnd cr lf (s.byteAt (k * streamBlockSize + j)) ∧
      scanEnd (s.block k) i left = (j, some (s.byteAt (k * streamBlockSize + j))) := by
  have hbyte : ∀ {m}, k * streamBlockSize + i ≤ m → m < k * streamBlockSize + (i + left) →
      s.byteAt m = s.block k (m - k * streamBlockSize) := by
    intro m hle hlt
    rw [← byteAt_mul_add (show m - k * streamBlockSize < streamBlockSize by omega),
      Nat.add_sub_cancel' (by omega)]
  rcases scanEnd_cases (s.block k) i left with ⟨hscan, hnone⟩ | ⟨j, hle, hlt, hnone, hend, hscan⟩
  · refine .inl ⟨hscan, fun m hm hm' => ?_⟩
    rw [hbyte hm hm']
    exact hnone _ (by omega) (by omega)
  · rw [← byteAt_mul_add (by omega)] at hend hscan
    refine .inr ⟨j, hle, hlt, fun m hm hm' => ?_, hend, hscan⟩
    rw [hbyte hm (by omega)]
    exact hnone _ (by omega) (by omega)

lemma reads_goOn (h : s.Holds t) {result : CopyResult} {bytes : List UInt8} {n : ℕ}
    (hle : s.rdTotalPos + n ≤ s.wrTotalPos) (hpos : s.rdBlockPos + n ≤ streamBlockSize)
    (hpiece : Piece cr lf bufSize (s.content.drop s.rdTotalPos) result.status bytes
      (s.content.drop (s.rdTotalPos + n))) :
    Reads s bufSize (result, bytes, s.goOn n) := by
  refine ⟨⟨rfl, rfl, rfl, rfl⟩, ?_, hpos, ⟨Nat.le_add_right _ _, hle⟩, hpiece⟩
  have := h.place
  dsimp only [goOn]
  omega

/-- What is read within the block of the reader. -/
lemma read_unread (h : s.Holds t) {n : ℕ} (hle : s.rdTotalPos + n ≤ s.wrTotalPos)
    (hpos : s.rdBlockPos + n ≤ streamBlockSize) :
    (s.block s.pnodeRd).read s.rdBlockPos n = (s.content.drop s.rdTotalPos).take n := by
  have := h.place
  rw [read_block s _ _ _ hpos (by omega), h.place]

lemma reads_at {result : CopyResult} {bytes : List UInt8} {pnodeRd rdBlockPos rdTotalPos : ℕ}
    (hplace : rdTotalPos = pnodeRd * streamBlockSize + rdBlockPos)
    (hpos : rdBlockPos ≤ streamBlockSize)
    (hle : s.rdTotalPos ≤ rdTotalPos ∧ rdTotalPos ≤ s.wrTotalPos)
    (hpiece : Piece cr lf bufSize (s.content.drop s.rdTotalPos) result.status bytes
      (s.content.drop rdTotalPos)) :
    Reads s bufSize (result, bytes, { s with pnodeRd, rdBlockPos, rdTotalPos }) :=
  ⟨⟨rfl, rfl, rfl, rfl⟩, hplace, hpos, hle, hpiece⟩

lemma behind_lf {pos : ℕ} (h : s.byteAt pos = lf) : s.behind pos = pos + 1 := by
  rw [behind, if_neg]
  rintro ⟨hcr, -⟩
  rw [h] at hcr
  exact absurd hcr (by decide)

/-- A line that ends in the block of the reader. -/
lemma piece_block (h : s.Holds t) {j : ℕ} (hle : s.rdBlockPos ≤ j) (hj : j < streamBlockSize)
    (hlt : s.pnodeRd * streamBlockSize + j < s.wrTotalPos)
    (hnone : ∀ m, s.pnodeRd * streamBlockSize + s.rdBlockPos ≤ m →
      m < s.pnodeRd * streamBlockSize + j → ¬ IsEnd cr lf (s.byteAt m))
    (hend : IsEnd cr lf (s.byteAt (s.pnodeRd * streamBlockSize + j)))
    (hfits : ¬ bufSize < j - s.rdBlockPos) :
    Piece cr lf bufSize (s.content.drop s.rdTotalPos) .ended
      ((s.block s.pnodeRd).read s.rdBlockPos (j - s.rdBlockPos))
      (s.content.drop (s.behind (s.pnodeRd * streamBlockSize + j))) := by
  have hplace := h.place
  have hpiece := piece_ok (by omega) hlt hend (fun i hri hi => hnone i (by omega) hi)
    (show s.pnodeRd * streamBlockSize + j - s.rdTotalPos ≤ bufSize by omega)
  have hactual : s.pnodeRd * streamBlockSize + j - s.rdTotalPos = j - s.rdBlockPos := by omega
  rwa [hactual, ← read_unread h (by omega) (by omega)] at hpiece

lemma copyLast_reads (h : s.Holds t) (hnode : s.pnodeRd = s.pnodeWr)
    (hlt : s.rdTotalPos < s.wrTotalPos) : Reads s bufSize (s.copyLast bufSize) := by
  have hplace := h.place
  have hwr := wrTotalPos_eq h.valid
  have hwrlt := wrBlockPos_lt h.valid
  rw [← hnode] at hwr
  unfold copyLast
  dsimp only
  rw [← h.valid.pos]
  rcases @scan_block s s.pnodeRd s.rdBlockPos (s.wrBlockPos - s.rdBlockPos) (by omega) with
    ⟨hscan, hnone⟩ | ⟨j, hle, hjlt, hnone, hend, hscan⟩
  · rw [hscan]
    dsimp only
    have hline : ∀ i, s.rdTotalPos ≤ i → i < s.wrTotalPos → ¬ IsEnd cr lf (s.byteAt i) :=
      fun i hri hi => hnone i (by omega) (by omega)
    by_cases hpart : bufSize < s.rdBlockPos + (s.wrBlockPos - s.rdBlockPos) - s.rdBlockPos
    · rw [if_pos hpart]
      refine reads_goOn h (by omega) (by omega) ?_
      rw [read_unread h (by omega) (by omega)]
      exact piece_more (by omega) le_rfl hline
    · rw [if_neg hpart, if_pos (by omega)]
      have hnil : s.content.drop s.wrTotalPos = [] :=
        List.drop_eq_nil_of_le (length_content s).le
      have hpiece : Piece cr lf bufSize (s.content.drop s.rdTotalPos) .last
          (s.content.drop s.rdTotalPos) [] := by
        refine piece_last (by rw [length_content]; exact hlt) (fun i hri x hx => ?_)
          (by rw [length_content]; omega)
        have hi := (List.getElem?_eq_some_iff.mp hx).1
        rw [length_content] at hi
        exact not_isEnd_content hline i hri hi x hx
      refine ⟨⟨rfl, rfl, rfl, rfl⟩, ?_, by dsimp only; omega, ⟨hlt.le, le_rfl⟩, ?_⟩
      · dsimp only
        omega
      · dsimp only
        rw [read_unread h (by omega) (by omega), List.take_of_length_le
          (by rw [List.length_drop, length_content]; omega), hnil]
        exact hpiece
  · rw [hscan]
    dsimp only
    by_cases hpart : bufSize < j - s.rdBlockPos
    · rw [if_pos hpart]
      refine reads_goOn h (by omega) (by omega) ?_
      rw [read_unread h (by omega) (by omega)]
      exact piece_more (by omega) (by omega) fun i hri hi => hnone i (by omega) hi
    · rw [if_neg hpart, if_neg (by omega)]
      have hpiece := piece_block h hle (by omega) (by omega) hnone hend hpart
      have hnext : s.byteAt (s.pnodeRd * streamBlockSize + j + 1) = s.block s.pnodeRd (j + 1) := by
        rw [Nat.add_assoc, byteAt_mul_add (by omega)]
      rw [behind, hnext] at hpiece
      have hplus : ∀ n, s.pnodeRd * streamBlockSize + j + n =
          s.rdTotalPos + (j - s.rdBlockPos + n) := by
        intro n
        omega
      by_cases hlf : some (s.byteAt (s.pnodeRd * streamBlockSize + j)) = some lf ∨
          j + 1 = s.wrBlockPos
      · rw [if_pos hlf]
        rw [if_neg, hplus] at hpiece
        · exact reads_goOn h (by omega) (by omega) hpiece
        · rintro ⟨hcr, hmore, -⟩
          rcases hlf with hlf | hlast
          · rw [hcr] at hlf
            exact absurd hlf (by decide)
          · omega
      · rw [if_neg hlf]
        have hcr : s.byteAt (s.pnodeRd * streamBlockSize + j) = cr :=
          hend.resolve_right fun hl => hlf (.inl (congrArg some hl))
        have hmore : j + 1 ≠ s.wrBlockPos := fun hl => hlf (.inr hl)
        by_cases hfeed : s.block s.pnodeRd (j + 1) = lf
        · rw [if_pos hfeed]
          rw [if_pos ⟨hcr, by omega, hfeed⟩, hplus] at hpiece
          exact reads_goOn h (by omega) (by omega) hpiece
        · rw [if_neg hfeed]
          rw [if_neg fun hp => hfeed hp.2.2, hplus] at hpiece
          exact reads_goOn h (by omega) (by omega) hpiece

lemma copyFirst_reads (h : s.Holds t) (hnode : s.pnodeRd < s.pnodeWr) {j : ℕ}
    (hle : s.rdBlockPos ≤ j) (hj : j < streamBlockSize)
    (hnone : ∀ m, s.pnodeRd * streamBlockSize + s.rdBlockPos ≤ m →
      m < s.pnodeRd * streamBlockSize + j → ¬ IsEnd cr lf (s.byteAt m))
    (hend : IsEnd cr lf (s.byteAt (s.pnodeRd * streamBlockSize + j)))
    (hbehind : s.wrTotalPos = (s.pnodeRd + 1) * streamBlockSize →
      s.byteAt (s.wrTotalPos - 1) = cr → s.block (s.pnodeRd + 1) 0 ≠ lf) :
    Reads s bufSize
      (s.copyFirst bufSize j (some (s.byteAt (s.pnodeRd * streamBlockSize + j)))) := by
  have hplace := h.place
  have hwr := wrTotalPos_eq h.valid
  have hsucc : (s.pnodeRd + 1) * streamBlockSize = s.pnodeRd * streamBlockSize + streamBlockSize :=
    Nat.succ_mul _ _
  have hblocks := Nat.mul_le_mul_right streamBlockSize (Nat.succ_le_of_lt hnode)
  rw [Nat.succ_eq_add_one] at hblocks
  unfold copyFirst
  dsimp only
  by_cases hpart : bufSize < j - s.rdBlockPos
  · rw [if_pos hpart]
    refine reads_goOn h (by omega) (by omega) ?_
    rw [read_unread h (by omega) (by omega)]
    exact piece_more (by omega) (by omega) fun i hri hi => hnone i (by omega) hi
  rw [if_neg hpart]
  have hpiece := piece_block h hle hj (by omega) hnone hend hpart
  by_cases hlf : s.byteAt (s.pnodeRd * streamBlockSize + j) = lf
  · rw [if_pos (congrArg some hlf)]
    rw [behind_lf hlf] at hpiece
    have hone : s.rdTotalPos + (j - s.rdBlockPos + 1) = s.pnodeRd * streamBlockSize + j + 1 := by
      omega
    by_cases hfull : (s.goOn (j - s.rdBlockPos + 1)).rdBlockPos = streamBlockSize
    · rw [if_pos hfull]
      have hfull : s.rdBlockPos + (j - s.rdBlockPos + 1) = streamBlockSize := hfull
      exact reads_at (by dsimp only [goOn]; omega) (by omega) (by dsimp only [goOn]; omega)
        (by dsimp only [goOn]; rwa [hone])
    · rw [if_neg hfull]
      exact reads_goOn h (by omega) (by omega) (by rwa [hone])
  have hcr : s.byteAt (s.pnodeRd * streamBlockSize + j) = cr := hend.resolve_right hlf
  have hone : s.rdTotalPos + (j - s.rdBlockPos + 1) = s.pnodeRd * streamBlockSize + j + 1 := by
    omega
  have htwo : s.rdTotalPos + (j - s.rdBlockPos + 2) = s.pnodeRd * streamBlockSize + j + 2 := by
    omega
  rw [if_neg fun hp => hlf (Option.some.inj hp), if_pos (congrArg some hcr)]
  by_cases hedge : j + 1 = streamBlockSize
  · -- the carriage return is the last byte of the block
    have hnext : s.byteAt (s.pnodeRd * streamBlockSize + j + 1) = s.block (s.pnodeRd + 1) 0 := by
      have hfirst := @byteAt_mul_add s (s.pnodeRd + 1) 0 streamBlockSize_pos
      have hpos : s.pnodeRd * streamBlockSize + j + 1 = (s.pnodeRd + 1) * streamBlockSize + 0 := by
        omega
      rw [hpos, hfirst]
    rw [if_pos hedge]
    by_cases hfeed : s.block (s.pnodeRd + 1) 0 = lf
    · have hmore : s.pnodeRd * streamBlockSize + j + 1 < s.wrTotalPos := by
        by_contra hlast
        have htotal : s.wrTotalPos = (s.pnodeRd + 1) * streamBlockSize := by omega
        have hlastPos : s.wrTotalPos - 1 = s.pnodeRd * streamBlockSize + j := by omega
        exact hbehind htotal (hlastPos ▸ hcr) hfeed
      rw [if_pos hfeed]
      rw [behind, if_pos ⟨hcr, hmore, by rw [hnext, hfeed]⟩] at hpiece
      exact reads_at (by omega) (by omega) (by omega) (by rwa [htwo])
    · rw [if_neg hfeed]
      rw [behind, if_neg fun hp => hfeed (hnext ▸ hp.2.2)] at hpiece
      exact reads_at (by omega) (by omega) (by omega) (by rwa [hone])
  · have hnext : s.byteAt (s.pnodeRd * streamBlockSize + j + 1) = s.block s.pnodeRd (j + 1) := by
      rw [Nat.add_assoc, byteAt_mul_add (by omega)]
    rw [if_neg hedge]
    by_cases hfeed : s.block s.pnodeRd (j + 1) = lf
    · rw [if_neg (not_not.mpr hfeed)]
      rw [behind, if_pos ⟨hcr, by omega, by rw [hnext, hfeed]⟩] at hpiece
      by_cases hfull : j + 2 = streamBlockSize
      · rw [if_pos hfull]
        exact reads_at (by omega) (by omega) (by omega) (by rwa [htwo])
      · rw [if_neg hfull]
        exact reads_goOn h (by omega) (by omega) (by rwa [htwo])
    · rw [if_pos hfeed]
      rw [behind, if_neg fun hp => hfeed (hnext ▸ hp.2.2)] at hpiece
      exact reads_goOn h (by omega) (by omega) (by rwa [hone])

/-- What is read of the block of the reader and the one behind it. -/
lemma read_second (h : s.Holds t) {n : ℕ} (hn : n ≤ streamBlockSize)
    (hle : (s.pnodeRd + 1) * streamBlockSize + n ≤ s.wrTotalPos) :
    (s.block s.pnodeRd).read s.rdBlockPos (streamBlockSize - s.rdBlockPos) ++
        (s.block (s.pnodeRd + 1)).read 0 n =
      (s.content.drop s.rdTotalPos).take (streamBlockSize - s.rdBlockPos + n) := by
  have hplace := h.place
  have hpos := h.pos
  have hsucc : (s.pnodeRd + 1) * streamBlockSize = s.pnodeRd * streamBlockSize + streamBlockSize :=
    Nat.succ_mul _ _
  have hnext : s.rdTotalPos + (streamBlockSize - s.rdBlockPos) =
      (s.pnodeRd + 1) * streamBlockSize + 0 := by omega
  rw [read_unread h (by omega) (by omega), read_block s (s.pnodeRd + 1) 0 n (by omega) (by omega),
    List.take_add, List.drop_drop, hnext]

lemma partSecond_reads (h : s.Holds t) {n : ℕ} (hn : n ≤ streamBlockSize)
    (hle : (s.pnodeRd + 1) * streamBlockSize + n ≤ s.wrTotalPos)
    (hline : ∀ i, s.rdTotalPos ≤ i → i < (s.pnodeRd + 1) * streamBlockSize + n →
      ¬ IsEnd cr lf (s.byteAt i))
    (hpart : bufSize < streamBlockSize - s.rdBlockPos + n) :
    Reads s bufSize
      (if streamBlockSize - s.rdBlockPos ≤ bufSize then
        (.part, (s.block s.pnodeRd).read s.rdBlockPos (streamBlockSize - s.rdBlockPos) ++
            (s.block (s.pnodeRd + 1)).read 0 (bufSize - (streamBlockSize - s.rdBlockPos)),
          { s with
            pnodeRd := s.pnodeRd + 1
            rdBlockPos := bufSize - (streamBlockSize - s.rdBlockPos)
            rdTotalPos := s.rdTotalPos + bufSize })
      else (.part, (s.block s.pnodeRd).read s.rdBlockPos bufSize, s.goOn bufSize)) := by
  have hplace := h.place
  have hpos := h.pos
  have hsucc : (s.pnodeRd + 1) * streamBlockSize = s.pnodeRd * streamBlockSize + streamBlockSize :=
    Nat.succ_mul _ _
  have hpiece := piece_more (show s.rdTotalPos + bufSize <
    (s.pnodeRd + 1) * streamBlockSize + n by omega) hle hline
  by_cases hfirst : streamBlockSize - s.rdBlockPos ≤ bufSize
  · rw [if_pos hfirst]
    refine reads_at (by omega) (by omega) (by omega) ?_
    rwa [read_second h (by omega) (by omega), Nat.add_sub_cancel' hfirst]
  · rw [if_neg hfirst]
    refine reads_goOn h (by omega) (by omega) ?_
    rwa [read_unread h (by omega) (by omega)]

/-- What a call does not get right: a text without an end that the buffer takes up to the end of
the next block, a carriage return in the last byte of that block, and one that is the last byte of
a full block with a line feed in the memory behind it. -/
structure Clear (s : Stream) (bufSize : ℕ) : Prop where
  spans : s.pnodeRd < s.pnodeWr →
    (∀ i, s.rdTotalPos ≤ i → i < min s.wrTotalPos ((s.pnodeRd + 2) * streamBlockSize) →
      ¬ IsEnd cr lf (s.byteAt i)) →
    s.rdTotalPos + bufSize < min s.wrTotalPos ((s.pnodeRd + 2) * streamBlockSize)
  edge : (s.pnodeRd + 2) * streamBlockSize < s.wrTotalPos →
    (∀ i, s.rdTotalPos ≤ i → i < (s.pnodeRd + 2) * streamBlockSize - 1 →
      ¬ IsEnd cr lf (s.byteAt i)) →
    s.byteAt ((s.pnodeRd + 2) * streamBlockSize - 1) = cr →
    (s.pnodeRd + 2) * streamBlockSize - 1 ≤ s.rdTotalPos + bufSize →
    s.block (s.pnodeRd + 1) streamBlockSize ≠ lf ∧
      s.byteAt ((s.pnodeRd + 2) * streamBlockSize) ≠ lf
  behind : s.wrTotalPos = (s.pnodeRd + 1) * streamBlockSize → s.byteAt (s.wrTotalPos - 1) = cr →
    s.block (s.pnodeRd + 1) 0 ≠ lf

/-- How far the second block is looked through. -/
lemma secondStop (h : s.Holds t) (hnode : s.pnodeRd < s.pnodeWr) :
    let stop := if s.pnodeRd + 1 = s.pnodeWr then s.wrBlockPos else streamBlockSize
    stop ≤ streamBlockSize ∧ (s.pnodeRd + 1) * streamBlockSize + stop =
        min s.wrTotalPos ((s.pnodeRd + 2) * streamBlockSize) ∧
      (stop = streamBlockSize ∨ (s.pnodeRd + 1) * streamBlockSize + stop = s.wrTotalPos) := by
  have hwr := wrTotalPos_eq h.valid
  have hwrlt := wrBlockPos_lt h.valid
  have hsucc : (s.pnodeRd + 2) * streamBlockSize =
      (s.pnodeRd + 1) * streamBlockSize + streamBlockSize := Nat.succ_mul _ _
  dsimp only
  by_cases hlast : s.pnodeRd + 1 = s.pnodeWr
  · rw [if_pos hlast]
    rw [← hlast] at hwr
    omega
  · rw [if_neg hlast]
    have hblocks := Nat.mul_le_mul_right streamBlockSize
      (show s.pnodeRd + 2 ≤ s.pnodeWr by omega)
    omega

lemma copySecond_reads (h : s.Holds t) (hclear : s.Clear bufSize) (hnode : s.pnodeRd < s.pnodeWr)
    (hfirst : ∀ m, s.rdTotalPos ≤ m → m < (s.pnodeRd + 1) * streamBlockSize →
      ¬ IsEnd cr lf (s.byteAt m)) :
    Reads s bufSize (s.copySecond bufSize) := by
  have hplace := h.place
  have hpos := h.pos
  have hsucc : (s.pnodeRd + 1) * streamBlockSize = s.pnodeRd * streamBlockSize + streamBlockSize :=
    Nat.succ_mul _ _
  have hsucc' : (s.pnodeRd + 2) * streamBlockSize =
      (s.pnodeRd + 1) * streamBlockSize + streamBlockSize := Nat.succ_mul _ _
  unfold copySecond
  dsimp only
  rw [← h.valid.pos]
  obtain ⟨hstople, hmin, hlast⟩ := secondStop h hnode
  generalize (if s.pnodeRd + 1 = s.pnodeWr then s.wrBlockPos else streamBlockSize) = stop at *
  have hbefore : ∀ {n}, (∀ m, (s.pnodeRd + 1) * streamBlockSize + 0 ≤ m →
      m < (s.pnodeRd + 1) * streamBlockSize + n → ¬ IsEnd cr lf (s.byteAt m)) →
      ∀ m, s.rdTotalPos ≤ m → m < (s.pnodeRd + 1) * streamBlockSize + n →
        ¬ IsEnd cr lf (s.byteAt m) := by
    intro n hnone m hle hlt
    by_cases hm : m < (s.pnodeRd + 1) * streamBlockSize
    · exact hfirst m hle hm
    · exact hnone m (by omega) hlt
  rcases @scan_block s (s.pnodeRd + 1) 0 stop (by omega) with
    ⟨hscan, hnone⟩ | ⟨j, -, hjlt, hnone, hend, hscan⟩
  · rw [hscan, Nat.zero_add]
    dsimp only
    rw [Nat.zero_add] at hnone
    have hspans := hclear.spans hnode fun i hri hi => hbefore hnone i hri (by omega)
    have hpart : bufSize < streamBlockSize - s.rdBlockPos + stop := by omega
    rw [if_pos hpart]
    exact partSecond_reads h hstople (by omega) (hbefore hnone) hpart
  · rw [Nat.zero_add] at hjlt
    rw [hscan]
    dsimp only
    have hline := hbefore hnone
    by_cases hpart : bufSize < streamBlockSize - s.rdBlockPos + j
    · rw [if_pos hpart]
      exact partSecond_reads h (by omega) (by omega) hline hpart
    · rw [if_neg hpart, if_neg (by omega)]
      have hpiece := piece_ok (by omega) (by omega) hend hline
        (show (s.pnodeRd + 1) * streamBlockSize + j - s.rdTotalPos ≤ bufSize by omega)
      have hactual : (s.pnodeRd + 1) * streamBlockSize + j - s.rdTotalPos =
          streamBlockSize - s.rdBlockPos + j := by omega
      rw [hactual, ← read_second h (by omega) (by omega)] at hpiece
      have hone : s.rdTotalPos + (streamBlockSize - s.rdBlockPos + j + 1) =
          (s.pnodeRd + 1) * streamBlockSize + j + 1 := by omega
      have htwo : s.rdTotalPos + (streamBlockSize - s.rdBlockPos + j + 2) =
          (s.pnodeRd + 1) * streamBlockSize + j + 2 := by omega
      by_cases hlf : some (s.byteAt ((s.pnodeRd + 1) * streamBlockSize + j)) = some lf ∨
          s.rdTotalPos + (streamBlockSize - s.rdBlockPos + j) + 1 = s.wrTotalPos
      · rw [if_pos hlf]
        rw [Stream.behind, if_neg] at hpiece
        · exact reads_at (by omega) (by omega) (by omega) (by rwa [hone])
        · rintro ⟨hcr, hmore, -⟩
          rcases hlf with hlf | hall
          · rw [hcr] at hlf
            exact absurd hlf (by decide)
          · omega
      · rw [if_neg hlf]
        have hcr : s.byteAt ((s.pnodeRd + 1) * streamBlockSize + j) = cr :=
          hend.resolve_right fun hl => hlf (.inl (congrArg some hl))
        have hmore : s.rdTotalPos + (streamBlockSize - s.rdBlockPos + j) + 1 ≠ s.wrTotalPos :=
          fun hl => hlf (.inr hl)
        have hedge : ¬ j + 1 < streamBlockSize → s.block (s.pnodeRd + 1) (j + 1) ≠ lf ∧
            s.byteAt ((s.pnodeRd + 1) * streamBlockSize + j + 1) ≠ lf := by
          intro hnot
          have hj : j + 1 = streamBlockSize := by omega
          have hsub : (s.pnodeRd + 2) * streamBlockSize - 1 =
              (s.pnodeRd + 1) * streamBlockSize + j := by omega
          have hsum : (s.pnodeRd + 1) * streamBlockSize + j + 1 =
              (s.pnodeRd + 2) * streamBlockSize := by omega
          rw [hj, hsum]
          exact hclear.edge (by omega) (fun i hri hi => hline i hri (by omega))
            (by rw [hsub]; exact hcr) (by omega)
        have hnext : j + 1 < streamBlockSize → s.block (s.pnodeRd + 1) (j + 1) =
            s.byteAt ((s.pnodeRd + 1) * streamBlockSize + j + 1) := by
          intro hin
          rw [Nat.add_assoc, byteAt_mul_add hin]
        by_cases hfeed : s.block (s.pnodeRd + 1) (j + 1) = lf
        · have hin : j + 1 < streamBlockSize := by
            by_contra hnot
            exact (hedge hnot).1 hfeed
          rw [if_pos hfeed]
          rw [Stream.behind, if_pos ⟨hcr, by omega, (hnext hin).symm.trans hfeed⟩] at hpiece
          exact reads_at (by omega) (by omega) (by omega) (by rwa [htwo])
        · rw [if_neg hfeed]
          rw [Stream.behind, if_neg] at hpiece
          · exact reads_at (by omega) (by omega) (by omega) (by rwa [hone])
          · rintro ⟨-, -, hl⟩
            by_cases hin : j + 1 < streamBlockSize
            · exact hfeed ((hnext hin).trans hl)
            · exact (hedge hin).2 hl

lemma copyFrom_reads (h : s.Holds t) (hclear : s.Clear bufSize)
    (hlt : s.rdTotalPos < s.wrTotalPos) : Reads s bufSize (s.copyFrom bufSize) := by
  have hplace := h.place
  have hpos := h.pos
  unfold copyFrom
  by_cases hnode : s.pnodeRd = s.pnodeWr
  · rw [if_pos hnode]
    exact copyLast_reads h hnode hlt
  · have hless : s.pnodeRd < s.pnodeWr := lt_of_le_of_ne h.node_le hnode
    have hsucc : (s.pnodeRd + 1) * streamBlockSize =
        s.pnodeRd * streamBlockSize + streamBlockSize := Nat.succ_mul _ _
    rw [if_neg hnode]
    rcases @scan_block s s.pnodeRd s.rdBlockPos (streamBlockSize - s.rdBlockPos) (by omega) with
      ⟨hscan, hnone⟩ | ⟨j, hle, hjlt, hnone, hend, hscan⟩
    · rw [hscan]
      dsimp only
      rw [if_neg (by omega)]
      exact copySecond_reads h hclear hless fun m hle hm => hnone m (by omega) (by omega)
    · rw [hscan]
      dsimp only
      rw [if_pos (by omega)]
      exact copyFirst_reads h hless hle (by omega) hnone hend hclear.behind

/-! ### Runs -/

/-- The line feed that a text begins with. -/
def skipped (text : List UInt8) : ℕ := if text.head? = some lf then 1 else 0

lemma skipLf_holds (h : s.Holds t) (hlt : s.rdTotalPos < s.wrTotalPos) :
    (∃ u, s.skipLf.Holds u) ∧ SameWriter s s.skipLf ∧
      s.skipLf.rdTotalPos = max s.rdTotalPos (skipped s.content) := by
  have hplace := h.place
  have hhead : s.content.head? = some (s.byteAt 0) := by
    rw [List.head?_eq_getElem?, content_getElem? (by omega)]
  unfold skipLf skipped
  rw [hhead]
  by_cases hstart : s.rdTotalPos = 0
  · have hnode : s.pnodeRd = 0 := by
      have hzero : s.pnodeRd * streamBlockSize = 0 := by omega
      exact (Nat.mul_eq_zero.mp hzero).resolve_right streamBlockSize_pos.ne'
    have hbyte : s.block s.pnodeRd 0 = s.byteAt 0 := by
      have := @byteAt_mul_add s 0 0 streamBlockSize_pos
      rw [hnode, ← this, Nat.zero_mul]
    by_cases hlf : s.block s.pnodeRd 0 = lf
    · rw [if_pos ⟨hstart, hlf⟩, if_pos (congrArg some (hbyte.symm.trans hlf))]
      have htotal := h.total
      refine ⟨⟨⟨t.written, 1, by omega⟩, ?_⟩, ⟨rfl, rfl, rfl, rfl⟩, by dsimp only; omega⟩
      refine h.move ⟨rfl, rfl, rfl, rfl⟩ rfl rfl ?_ (show 1 ≤ streamBlockSize by decide)
      dsimp only
      omega
    · rw [if_neg fun hp => hlf hp.2, if_neg fun hp => hlf (hbyte.trans (Option.some.inj hp))]
      exact ⟨⟨t, h⟩, ⟨rfl, rfl, rfl, rfl⟩, (max_eq_left (Nat.zero_le _)).symm⟩
  · rw [if_neg fun hp => hstart hp.1]
    refine ⟨⟨t, h⟩, ⟨rfl, rfl, rfl, rfl⟩, (max_eq_left ?_).symm⟩
    split
    · omega
    · omega

lemma content_of_sameWriter {u : Stream} (h : SameWriter s u) : u.content = s.content := by
  obtain ⟨hlist, -, -, htotal⟩ := h
  unfold Stream.content byteAt block
  rw [htotal, hlist]

/-- A call of a buffer that can be used, on a stream that is more than one line feed. -/
def CopyAdmitted (x : Stream × List (CopyResult × List UInt8)) (size : ℕ) : Prop :=
  (0 < size ∧ size < 2 ^ 31) ∧ x.1.content ≠ [lf] ∧ x.1.skipLf.Clear (size - 1)

def CopyStep (x : Stream × List (CopyResult × List UInt8)) (size : ℕ)
    (y : Stream × List (CopyResult × List UInt8)) : Prop :=
  ∃ result bytes t, x.1.copyline size = some (result, bytes, t) ∧ y = (t, x.2 ++ [(result, bytes)])

/-- What the calls have returned, as pieces of the text. -/
def pieces (outs : List (CopyResult × List UInt8)) : List (Status × List UInt8) :=
  outs.map fun out => (out.1.status, out.2)

structure CopyInv (least : ℕ) (text : List UInt8) (x : Stream × List (CopyResult × List UInt8)) :
    Prop where
  holds : ∃ t, x.1.Holds t
  content : x.1.content = text
  read : Pieces cr lf least (text.drop (skipped text)) (pieces x.2)
    (text.drop (max x.1.rdTotalPos (skipped text)))

lemma copyStep_keeps {least size : ℕ} {text : List UInt8}
    {x y : Stream × List (CopyResult × List UInt8)} (h : CopyInv least text x)
    (hadmits : CopyAdmitted x size) (hleast : least < size) (hstep : CopyStep x size y) :
    CopyInv least text y := by
  obtain ⟨s, outs⟩ := x
  obtain ⟨⟨t, ht⟩, rfl, hpieces⟩ := h
  obtain ⟨⟨hpos, hsmall⟩, hne, hclear⟩ := hadmits
  obtain ⟨result, bytes, u, hcopy, rfl⟩ := hstep
  dsimp only at *
  have hlen := length_content s
  have hmap : pieces (outs ++ [(result, bytes)]) = pieces outs ++ [(result.status, bytes)] :=
    List.map_append
  unfold copyline at hcopy
  by_cases hend : s.wrTotalPos ≤ s.rdTotalPos
  · rw [if_pos hend] at hcopy
    cases hcopy
    refine ⟨⟨t, ht⟩, rfl, ?_⟩
    have hnil : s.content.drop (max s.rdTotalPos (skipped s.content)) = [] :=
      List.drop_eq_nil_of_le (by omega)
    dsimp only
    rw [hnil] at hpieces ⊢
    rw [hmap]
    exact .snoc hpieces le_rfl .nothing
  · rw [if_neg hend, if_neg (by omega)] at hcopy
    have hlt : s.rdTotalPos < s.wrTotalPos := not_le.mp hend
    obtain ⟨⟨v, hv⟩, hwriter, hread⟩ := skipLf_holds ht hlt
    have hcontent := content_of_sameWriter hwriter
    have hlt' : s.skipLf.rdTotalPos < s.skipLf.wrTotalPos := by
      rw [hread, hwriter.2.2.2]
      refine max_lt hlt ?_
      by_contra hfull
      unfold skipped at hfull
      split at hfull
      · rename_i hhead
        refine hne ?_
        obtain ⟨c, rest, hc⟩ := List.exists_cons_of_ne_nil
          (List.ne_nil_of_length_pos (show 0 < s.content.length by omega))
        rw [hc] at hlen hhead ⊢
        rw [List.length_cons] at hlen
        cases hhead
        rw [List.length_eq_zero_iff.mp (show rest.length = 0 by omega)]
      · omega
    have hreads := copyFrom_reads hv hclear hlt'
    have heq := Option.some.inj hcopy
    rw [heq] at hreads
    obtain ⟨hw, hplace, hblock, ⟨hge, hle⟩, hpiece⟩ := hreads
    dsimp only at hw hplace hblock hge hle hpiece
    rw [hcontent, hread] at hpiece
    rw [hread] at hge
    have hafter : max u.rdTotalPos (skipped s.content) = u.rdTotalPos := by omega
    have htotal := hv.total
    refine ⟨⟨⟨v.written, u.rdTotalPos, by omega⟩, hv.move hw rfl rfl hplace hblock⟩, ?_, ?_⟩
    · exact (content_of_sameWriter hw).trans hcontent
    · dsimp only
      rw [hmap, hafter]
      exact .snoc hpieces (by omega) hpiece

lemma copyInv_of_run {least : ℕ} {text : List UInt8} {sizes : List ℕ}
    {x y : Stream × List (CopyResult × List UInt8)} (h : Run CopyAdmitted CopyStep x sizes y)
    (hleast : ∀ size ∈ sizes, least < size) (hx : CopyInv least text x) : CopyInv least text y := by
  induction h with
  | nil s => exact hx
  | cons ha hst _ ih =>
    refine ih (fun size hmem => hleast size (List.mem_cons_of_mem _ hmem)) ?_
    exact copyStep_keeps hx ha (hleast _ List.mem_cons_self) hst

lemma copyAdmitted_pos {sizes : List ℕ} {x y : Stream × List (CopyResult × List UInt8)}
    (h : Run CopyAdmitted CopyStep x sizes y) : ∀ size ∈ sizes, 0 < size := by
  induction h with
  | nil s => exact fun size hmem => absurd hmem List.not_mem_nil
  | cons ha hst _ ih =>
    intro size hmem
    rcases List.mem_cons.mp hmem with rfl | hmem
    · exact ha.1.1
    · exact ih size hmem

lemma holds_writes (h : s.Holds t) (chunks : List (List UInt8)) {u : Stream}
    (hroom : s.wrTotalPos + chunks.flatten.length < s.capacity)
    (hwrite : chunks.foldlM Stream.write s = some u) : u.Holds (t.write chunks.flatten) := by
  induction chunks generalizing s t with
  | nil =>
    cases hwrite
    have hnil : t.write ([] : List (List UInt8)).flatten = t :=
      Tape.ext_fields (List.append_nil _) rfl
    rwa [hnil]
  | cons bytes chunks ih =>
    rw [List.flatten_cons, List.length_append] at hroom
    obtain ⟨v, hv, hvalid, hcontent, hcapacity⟩ := exists_write h.valid bytes (by omega)
    have hlen := congrArg List.length hcontent
    rw [length_content, List.length_append, length_content] at hlen
    rw [List.foldlM_cons, hv] at hwrite
    have hnext := ih (h.write hvalid hcontent (sameReader_write hv)) (by omega) hwrite
    have happend : (t.write bytes).write chunks.flatten = t.write (bytes :: chunks).flatten :=
      Tape.ext_fields (List.append_assoc _ _ _) rfl
    rwa [happend] at hnext

lemma mem_pieces {outs : List (CopyResult × List UInt8)} {out : CopyResult × List UInt8}
    (h : out ∈ outs) : (out.1.status, out.2) ∈ pieces outs :=
  List.mem_map_of_mem h

lemma not_mem_pieces {outs : List (CopyResult × List UInt8)} (h : ∀ out ∈ outs, out.1 ≠ .term)
    (bytes : List UInt8) : (Status.last, bytes) ∉ pieces outs := by
  intro hmem
  obtain ⟨out, hout, heq⟩ := List.mem_map.mp hmem
  refine h out hout ?_
  cases hresult : out.1
  all_goals simp_all [CopyResult.status]

lemma countP_pieces (outs : List (CopyResult × List UInt8)) :
    (pieces outs).countP (·.1 ≠ .nothing) = outs.countP (·.1 ≠ .eof) := by
  rw [pieces, List.countP_map]
  refine List.countP_congr fun out _ => ?_
  cases hresult : out.1
  all_goals simp [CopyResult.status, hresult]

/-- **Reading line by line**: what is returned of a text that has been written in any chunks is its
lines, one after the other and whatever the sizes of the buffers, without a line feed that the text
begins with; at the end of the text it is all of them and the last line, which is reported as such
if it is not empty; and buffers that take a byte besides the zero get there. -/
theorem lines_of_copyline (b : Block) (allocator : List Block) (chunks : List (List UInt8))
    (s₀ s : Stream) (sizes : List ℕ) (outs : List (CopyResult × List UInt8))
    (hroom : chunks.flatten.length < (streamInit b allocator).capacity)
    (hwrite : chunks.foldlM Stream.write (streamInit b allocator) = some s₀)
    (h : Run CopyAdmitted CopyStep (s₀, []) sizes (s, outs)) :
    let text := chunks.flatten.drop (skipped chunks.flatten)
    let read := (pieces outs).foldl collect ([], [])
    read.1 <+: lines cr lf text ∧
      (∀ out ∈ outs, out.1 = .term ∨ out.1 = .eof →
        read = (lines cr lf text, lastLine cr lf text)) ∧
      ((∃ out ∈ outs, out.1 = .term) → lastLine cr lf text ≠ []) ∧
      ((∃ out ∈ outs, out.1 = .eof) → (∀ out ∈ outs, out.1 ≠ .term) →
        lastLine cr lf text = []) ∧
      ((∀ size ∈ sizes, 1 < size) → outs.countP (·.1 ≠ .eof) ≤ text.length) := by
  dsimp only
  have hholds := holds_writes (holds_streamInit b allocator) chunks (by
    change 0 + _ < _
    rwa [Nat.zero_add]) hwrite
  have htext : s₀.content = chunks.flatten := hholds.content
  have hread : s₀.rdTotalPos = 0 := hholds.read
  have hstart : ∀ least, CopyInv least chunks.flatten (s₀, []) := by
    intro least
    refine ⟨⟨_, hholds⟩, htext, ?_⟩
    dsimp only
    rw [hread, Nat.zero_max]
    exact .nil
  have hpieces := (copyInv_of_run h (copyAdmitted_pos h) (hstart 0)).read
  have hcollected := hpieces.collected
  have hall : ∀ out ∈ outs, out.1 = .term ∨ out.1 = .eof →
      (pieces outs).foldl collect ([], []) =
        (lines cr lf (chunks.flatten.drop (skipped chunks.flatten)),
          lastLine cr lf (chunks.flatten.drop (skipped chunks.flatten))) := by
    intro out hout hresult
    have hnil := hpieces.eq_nil (mem_pieces hout) (by
      rcases hresult with hterm | heof
      · exact .inl (by rw [hterm]; rfl)
      · exact .inr (by rw [heof]; rfl))
    rw [hnil] at hcollected
    exact Prod.ext hcollected.nothing.1 hcollected.nothing.2
  refine ⟨hcollected.first, hall, ?_, ?_, fun hsizes => ?_⟩
  · rintro ⟨out, hout, hterm⟩
    have hmem := mem_pieces hout
    rw [hterm] at hmem
    exact hpieces.last_ne_nil hmem
  · rintro ⟨out, hout, heof⟩ hno
    have hnil := hpieces.eq_nil (mem_pieces hout) (.inr (by rw [heof]; rfl))
    have hclosed := hpieces.closed hnil (not_mem_pieces hno)
    rw [hall out hout (.inr heof)] at hclosed
    exact hclosed
  · have hlong := (copyInv_of_run h hsizes (hstart 1)).read.length_le Nat.one_pos
    rw [countP_pieces] at hlong
    exact (Nat.le_add_right _ _).trans hlong

/-- Two lines of a byte each, the second of them without an end, in a block of zeros. -/
def twoLines : Stream := ((streamInit (fun _ => 0) []).put [97, 10, 98]).forwardWritingPtr 3

lemma writes_twoLines :
    [[97, 10, 98]].foldlM Stream.write (streamInit (fun _ => 0) []) = some twoLines := by
  rw [List.foldlM_cons, write_of_le (by simp) (by decide)]
  rfl

lemma clear_of_small {n : ℕ} (hnode : s.pnodeRd = s.pnodeWr)
    (hlt : s.wrTotalPos < streamBlockSize) : s.Clear n := by
  have hsucc : (s.pnodeRd + 1) * streamBlockSize = s.pnodeRd * streamBlockSize + streamBlockSize :=
    Nat.succ_mul _ _
  have hsucc' : (s.pnodeRd + 2) * streamBlockSize =
      (s.pnodeRd + 1) * streamBlockSize + streamBlockSize := Nat.succ_mul _ _
  exact ⟨fun h => absurd h (by omega), fun h => absurd h (by omega), fun h => absurd h (by omega)⟩

theorem lines_of_copyline_two :
    ∃ s, Run CopyAdmitted CopyStep (twoLines, []) [4, 4, 4]
        (s, [(.ok, [97]), (.term, [98]), (.eof, [])]) ∧
      [[97]] <+: lines cr lf [97, 10, 98] := by
  have hadmits : ∀ x : Stream × List (CopyResult × List UInt8), x.1.content ≠ [lf] →
      x.1.skipLf.pnodeRd = x.1.skipLf.pnodeWr → x.1.skipLf.wrTotalPos < streamBlockSize →
      CopyAdmitted x 4 := fun x hne hnode hlt => ⟨by decide, hne, clear_of_small hnode hlt⟩
  have hrun : Run CopyAdmitted CopyStep (twoLines, []) [4, 4, 4]
      ((twoLines.goOn 2).goOn 1, [(.ok, [97]), (.term, [98]), (.eof, [])]) := by
    refine .cons (hadmits _ (by decide) rfl (by decide)) ⟨_, _, _, rfl, rfl⟩
      (.cons (hadmits _ (by decide) rfl (by decide)) ⟨_, _, _, rfl, rfl⟩
        (.cons (hadmits _ (by decide) rfl (by decide)) ⟨_, _, _, rfl, rfl⟩ (.nil _)))
  exact ⟨_, hrun, (lines_of_copyline _ _ _ _ _ _ _ (by decide) writes_twoLines hrun).1⟩

/-- A line feed that a text begins with is not taken for an empty line. -/
theorem not_lines_of_copyline :
    ∃ s₀ s, [[10, 97]].foldlM Stream.write (streamInit (fun _ => 0) []) = some s₀ ∧
      Run CopyAdmitted CopyStep (s₀, []) [4] (s, [(.term, [97])]) ∧
      (pieces [(.term, [97])]).foldl collect ([], []) ≠
        (lines cr lf [10, 97], lastLine cr lf [10, 97]) := by
  refine ⟨((streamInit (fun _ => 0) []).put [10, 97]).forwardWritingPtr 2, _, ?_,
    .cons ⟨by decide, by decide, clear_of_small rfl (by decide)⟩ ⟨_, _, _, rfl, rfl⟩ (.nil _), ?_⟩
  · rw [List.foldlM_cons, write_of_le (by simp) (by decide)]
    rfl
  · have hlines : lines cr lf ([] ++ 10 :: [97]) = [] :: lines cr lf [97] :=
      lines_append nofun (.inr rfl)
    intro heq
    have hfirst := congrArg Prod.fst heq
    dsimp only at hfirst
    rw [show ([10, 97] : List UInt8) = [] ++ 10 :: [97] from rfl, hlines] at hfirst
    cases hfirst

end Stream

end SteepSystem.Streams
