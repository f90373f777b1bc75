import SteepSystem.Lib.Runs
import SteepSystem.Lib.Tapes
import SteepSystem.Streams.Content

/-!
The reading and writing pointers of a stream, against a tape of what has been written and how
much of it has been read. Two of the calls lose the tape: taking back what has been read already
leaves the reading position where it was, and a look ahead takes the position in the whole stream
for the one in the block.
-/

namespace SteepSystem.Streams

open SteepSystem.Lib

namespace Stream

def streamInit (b : Block) (allocator : List Block) : Stream where
  list := [b]
  allocator := allocator
  pnodeRd := 0
  pnodeWr := 0
  eomResult := .waiting
  rdBlockPos := 0
  wrBlockPos := 0
  rdTotalPos := 0
  wrTotalPos := 0
  lastEomParse := 0

/-- The size of the buffer for writing. -/
def getbufferForWriting (s : Stream) (size : ℕ) : ℕ :=
  if s.wrBlockPos = streamBlockSize then 0
  else if streamBlockSize - s.wrBlockPos < size then streamBlockSize - s.wrBlockPos
  else size

/-- Without a result where a node before the head would be taken. -/
def backwardWritingPtr (s : Stream) (offset : ℕ) : Option (ℕ × Stream) := do
  let offset :=
    if s.wrTotalPos < offset ∧ offset < streamBlockSize then s.wrTotalPos
    else if streamBlockSize < offset then streamBlockSize
    else offset
  let s ←
    if s.wrBlockPos < offset then
      if s.pnodeWr = 0 then none
      else some { s with
        pnodeWr := s.pnodeWr - 1
        wrBlockPos := streamBlockSize - (offset - s.wrBlockPos) }
    else some { s with wrBlockPos := s.wrBlockPos - offset }
  let s := { s with wrTotalPos := s.wrTotalPos - offset }
  -- the total position of the reader is set to itself
  let s :=
    if s.wrTotalPos < s.rdTotalPos then
      { s with rdBlockPos := s.wrBlockPos, rdTotalPos := s.rdTotalPos, pnodeRd := s.pnodeWr }
    else s
  return (offset, s)

def backwardReadingPtr (s : Stream) (offset : ℕ) : Option (ℕ × Stream) := do
  let offset :=
    if s.rdTotalPos < offset ∧ offset < streamBlockSize then s.rdTotalPos
    else if streamBlockSize < offset then streamBlockSize
    else offset
  let s ←
    if s.rdBlockPos < offset then
      if s.pnodeRd = 0 then none
      else some { s with
        pnodeRd := s.pnodeRd - 1
        rdBlockPos := streamBlockSize - (offset - s.rdBlockPos) }
    else some { s with rdBlockPos := s.rdBlockPos - offset }
  return (offset, { s with rdTotalPos := s.rdTotalPos - offset })

/-- The difference of the positions is unsigned, and large if the reader is ahead. -/
def forwardReadingPtr (s : Stream) (offset : ℕ) : Option (ℕ × Stream) := do
  let offset :=
    if (s.rdTotalPos ≤ s.wrTotalPos ∧ s.wrTotalPos - s.rdTotalPos < offset) ∧
        offset < streamBlockSize then
      s.wrTotalPos - s.rdTotalPos
    else if streamBlockSize < offset then streamBlockSize
    else offset
  let s ←
    if streamBlockSize - s.rdBlockPos < offset then
      if s.pnodeRd + 1 = s.list.length then none
      else some { s with
        pnodeRd := s.pnodeRd + 1
        rdBlockPos := offset - (streamBlockSize - s.rdBlockPos) }
    else some { s with rdBlockPos := s.rdBlockPos + offset }
  return (offset, { s with rdTotalPos := s.rdTotalPos + offset })

def resetReading (s : Stream) : Stream := { s with pnodeRd := 0, rdBlockPos := 0, rdTotalPos := 0 }

/-- A `memcpy` to a place of a buffer that has been filled so far. -/
def memcpyAt (pbuff : List UInt8) (pos : ℕ) (bytes : List UInt8) : List UInt8 :=
  pbuff.take pos ++ bytes ++ pbuff.drop (pos + bytes.length)

/-- The blocks up to the one that is written to, which is so many nodes ahead of `k`. -/
def peekBlocks (s : Stream) (size actualSize : ℕ) : ℕ → ℕ → ℕ → List UInt8 → List UInt8
  | 0, k, tmpSize, pbuff =>
    if size ≤ tmpSize + s.wrBlockPos then
      (memcpyAt pbuff tmpSize ((s.block k).read 0 (size - tmpSize))).take size
    else (memcpyAt pbuff tmpSize ((s.block k).read 0 s.wrBlockPos)).take actualSize
  | left + 1, k, tmpSize, pbuff =>
    -- a sum of type `unsigned int`
    if size ≤ (tmpSize + streamBlockSize) % 2 ^ 32 then
      (memcpyAt pbuff tmpSize ((s.block k).read 0 (size - tmpSize))).take size
    else
      peekBlocks s size actualSize left (k + 1) ((tmpSize + streamBlockSize) % 2 ^ 32)
        (memcpyAt pbuff tmpSize ((s.block k).read 0 streamBlockSize))

/-- What is copied to the buffer. The place in the first block is `rd_total_pos`, and what lies
behind a block is unknown. -/
def peekBuffer (s : Stream) (size : ℕ) : Option (List UInt8) :=
  if s.wrTotalPos ≤ s.rdTotalPos then some []
  else
    let actualSize := (s.wrTotalPos - s.rdTotalPos) % 2 ^ 32
    if s.pnodeRd = s.pnodeWr then
      some ((s.block s.pnodeRd).read s.rdTotalPos (if size ≤ actualSize then size else actualSize))
    else
      let tmpSize := streamBlockSize - s.rdBlockPos
      if size ≤ tmpSize then some ((s.block s.pnodeRd).read s.rdTotalPos size)
      else if s.pnodeWr < s.pnodeRd then none
      else
        some (s.peekBlocks size actualSize (s.pnodeWr - (s.pnodeRd + 1)) (s.pnodeRd + 1) tmpSize
          ((s.block s.pnodeRd).read s.rdTotalPos tmpSize))

/-! ### The calls -/

inductive Call
  | write (bytes : List UInt8)
  /-- A buffer for writing, filled with `bytes` and forwarded by their number. -/
  | fill (size : ℕ) (bytes : List UInt8)
  | backwardWriting (offset : ℕ)
  | getbuffer (size : ℕ)
  | backwardReading (offset : ℕ)
  | forwardReading (offset : ℕ)
  | peek (size : ℕ)
  | resetReading
  /-- All that is left to read of another stream, buffer by buffer. -/
  | concat (other : Stream)

inductive Output
  | done
  | bytes (bytes : Option (List UInt8))
  | offset (n : ℕ)

/-- Nothing where the code does not come to an end or leaves the list. -/
def call (s : Stream) : Call → Option (Output × Stream)
  | .write bytes => (s.write bytes).map fun t => (.done, t)
  | .fill _ bytes => some (.done, (s.put bytes).forwardWritingPtr bytes.length)
  | .backwardWriting offset => (s.backwardWritingPtr offset).map fun r => (.offset r.1, r.2)
  | .getbuffer size =>
    match s.getbufferForReading size with
    | none => some (.bytes none, s)
    | some (bytes, t) => some (.bytes (some bytes), t)
  | .backwardReading offset => (s.backwardReadingPtr offset).map fun r => (.offset r.1, r.2)
  | .forwardReading offset => (s.forwardReadingPtr offset).map fun r => (.offset r.1, r.2)
  | .peek size => (s.peekBuffer size).map fun bytes => (.bytes (some bytes), s)
  | .resetReading => some (.done, s.resetReading)
  | .concat other => (copy (other.pnodeWr - other.pnodeRd + 2) other s).map fun t => (.done, t)

/-- What a call does to the tape. A buffer for reading may be shorter than what is asked for, and
there is one as long as anything is unread. -/
def Call.OnTape (t : Tape UInt8) : Call → Output → Tape UInt8 → Prop
  | .write bytes, o, u => o = .done ∧ u = t.write bytes
  | .fill _ bytes, o, u => o = .done ∧ u = t.write bytes
  | .backwardWriting offset, o, u => o = .offset (min offset t.written.length) ∧ u = t.unwrite offset
  | .getbuffer size, o, u =>
    (t.unread = [] ∧ o = .bytes none ∧ u = t) ∨
      ∃ n ≤ size, n ≤ t.unread.length ∧ o = .bytes (some (t.unread.take n)) ∧ u = t.skip n
  | .backwardReading offset, o, u => o = .offset (min offset t.read) ∧ u = t.back offset
  | .forwardReading offset, o, u => o = .offset (min offset t.unread.length) ∧ u = t.skip offset
  | .peek size, o, u => o = .bytes (some (t.unread.take size)) ∧ u = t
  | .resetReading, o, u => o = .done ∧ u = t.rewind
  | .concat other, o, u => o = .done ∧ u = t.write (other.content.drop other.rdTotalPos)

/-- The stream holds the tape: the counters are those of the tape, and the places in the blocks
are those of the counters. -/
structure Holds (s : Stream) (t : Tape UInt8) : Prop where
  valid : s.Valid
  content : s.content = t.written
  read : s.rdTotalPos = t.read
  place : s.rdTotalPos = s.pnodeRd * streamBlockSize + s.rdBlockPos
  pos : s.rdBlockPos ≤ streamBlockSize

/-- What the caller has to see to: offsets below the size of a block, no more than the buffer for
writing takes, and blocks enough. -/
def Call.Pre (s : Stream) : Call → Prop
  | .write bytes => s.wrTotalPos + bytes.length < s.capacity
  | .fill size bytes =>
    bytes.length ≤ s.getbufferForWriting size ∧ s.wrTotalPos + bytes.length < s.capacity
  | .backwardWriting offset => offset < streamBlockSize
  | .getbuffer size => size < 2 ^ 32
  | .backwardReading offset => offset < streamBlockSize
  | .forwardReading offset => offset < streamBlockSize
  | .peek size => size < 2 ^ 32
  | .resetReading => True
  | .concat other =>
    (∃ t, other.Holds t) ∧
      s.wrTotalPos + (other.wrTotalPos - other.rdTotalPos) < s.capacity

/-- What is taken back has not been read, and a look ahead is made from the first block. -/
def Call.Clear (s : Stream) : Call → Prop
  | .backwardWriting offset => s.rdTotalPos ≤ s.wrTotalPos - offset
  | .peek size =>
    (s.pnodeRd = 0 ∨ s.wrTotalPos ≤ s.rdTotalPos ∨ size = 0) ∧
      min size (s.wrTotalPos - s.rdTotalPos) < 2 ^ 32 - streamBlockSize
  | _ => True

/-! ### What each call keeps -/

/-- Two streams are read from the same place. -/
def SameReader (s t : Stream) : Prop :=
  t.pnodeRd = s.pnodeRd ∧ t.rdBlockPos = s.rdBlockPos ∧ t.rdTotalPos = s.rdTotalPos

variable {s s' : Stream} {t : Tape UInt8}

lemma SameReader.trans {u : Stream} (h : SameReader s s') (h' : SameReader s' u) :
    SameReader s u :=
  ⟨h'.1.trans h.1, h'.2.1.trans h.2.1, h'.2.2.trans h.2.2⟩

lemma sameReader_chunk (s : Stream) (bytes : List UInt8) (offset : ℕ) :
    SameReader s ((s.put bytes).forwardWritingPtr offset) := by
  unfold forwardWritingPtr appendNode
  dsimp only
  split
  · split
    · exact ⟨rfl, rfl, rfl⟩
    · split
      · exact ⟨rfl, rfl, rfl⟩
      · exact ⟨rfl, rfl, rfl⟩
  · exact ⟨rfl, rfl, rfl⟩

lemma sameReader_write {bytes : List UInt8} (h : s.write bytes = some s') : SameReader s s' := by
  induction hn : bytes.length using Nat.strongRecOn generalizing s bytes with
  | ind n ih =>
    subst hn
    rw [write] at h
    dsimp only at h
    split at h
    · cases h
      exact ⟨rfl, rfl, rfl⟩
    · rename_i hne
      have hlen := List.length_pos_iff.mpr hne
      split at h
      · cases h
      · exact (sameReader_chunk s _ _).trans (ih _ (by rw [List.length_drop]; omega) h rfl)

lemma sameReader_copy {fuel : ℕ} {fake : Stream} (h : copy fuel fake s = some s') :
    SameReader s s' := by
  induction fuel generalizing fake s with
  | zero => cases h
  | succ fuel ih =>
    rw [copy] at h
    split at h
    · cases h
      exact ⟨rfl, rfl, rfl⟩
    · split at h
      · cases h
      · rename_i hwrite
        exact (sameReader_write hwrite).trans (ih h)

lemma Holds.total (h : s.Holds t) : s.wrTotalPos = t.written.length := by
  rw [← h.content, length_content]

lemma Holds.read_le (h : s.Holds t) : s.rdTotalPos ≤ s.wrTotalPos := by
  rw [h.read, h.total]
  exact t.read_le

lemma Holds.unread (h : s.Holds t) : s.content.drop s.rdTotalPos = t.unread := by
  rw [h.content, h.read, Tape.unread]

/-- The reader is not behind the writer, and between its block and that of the writer only if
there are whole blocks between them. -/
lemma Holds.node_le (h : s.Holds t) : s.pnodeRd ≤ s.pnodeWr := by
  have hplace := h.place
  have hwr := wrTotalPos_eq h.valid
  have hlt := wrBlockPos_lt h.valid
  have hle := h.read_le
  by_contra hgt
  have := Nat.mul_le_mul_right streamBlockSize (show s.pnodeWr + 1 ≤ s.pnodeRd by omega)
  rw [Nat.succ_mul] at this
  omega

lemma Holds.write (h : s.Holds t) {bytes : List UInt8} (hvalid : s'.Valid)
    (hcontent : s'.content = s.content ++ bytes) (hreader : SameReader s s') :
    s'.Holds (t.write bytes) := by
  obtain ⟨hnode, hpos, htotal⟩ := hreader
  refine ⟨hvalid, ?_, htotal.trans h.read, ?_, ?_⟩
  · rw [hcontent, h.content]
    rfl
  · rw [htotal, hnode, hpos]
    exact h.place
  · rw [hpos]
    exact h.pos

/-- Two streams have the same blocks and are written at the same place. -/
def SameWriter (s t : Stream) : Prop :=
  t.list = s.list ∧ t.pnodeWr = s.pnodeWr ∧ t.wrBlockPos = s.wrBlockPos ∧ t.wrTotalPos = s.wrTotalPos

/-- Whatever moves the reader keeps what has been written. -/
lemma Holds.move (h : s.Holds t) {u : Tape UInt8} (hwriter : SameWriter s s')
    (hwritten : u.written = t.written) (hread : s'.rdTotalPos = u.read)
    (hplace : s'.rdTotalPos = s'.pnodeRd * streamBlockSize + s'.rdBlockPos)
    (hpos : s'.rdBlockPos ≤ streamBlockSize) : s'.Holds u := by
  obtain ⟨hlist, hnode, hblock, htotal⟩ := hwriter
  refine ⟨⟨?_, ?_, ?_⟩, ?_, hread, hplace, hpos⟩
  · rw [hnode, htotal, h.valid.node]
  · rw [hblock, htotal, h.valid.pos]
  · rw [hnode, hlist]
    exact h.valid.lt
  · rw [hwritten, ← h.content]
    unfold Stream.content byteAt block
    rw [htotal, hlist]

lemma exists_backwardWriting (h : s.Holds t) {offset : ℕ} (hpre : offset < streamBlockSize)
    (hclear : s.rdTotalPos ≤ s.wrTotalPos - offset) :
    ∃ s', s.backwardWritingPtr offset = some (min offset t.written.length, s') ∧
      s'.Holds (t.unwrite offset) := by
  have hread := h.read
  have hplace := h.place
  have hpos := h.pos
  have htotal := h.total
  have hwr := wrTotalPos_eq h.valid
  have hwrlt := wrBlockPos_lt h.valid
  have hlt := h.valid.lt
  have hcontent : ∀ n, (s.content.take (s.wrTotalPos - n)) =
      (List.range (s.wrTotalPos - n)).map s.byteAt := by
    intro n
    rw [Stream.content, ← List.map_take, List.take_range, min_eq_left (Nat.sub_le _ _)]
  unfold backwardWritingPtr
  have hoffset : (if s.wrTotalPos < offset ∧ offset < streamBlockSize then s.wrTotalPos
      else if streamBlockSize < offset then streamBlockSize else offset) =
      min offset t.written.length := by
    split_ifs <;> omega
  rw [hoffset]
  dsimp only
  have hrest : min offset t.written.length ≤ s.wrTotalPos := by omega
  have hwritten : (List.range (s.wrTotalPos - min offset t.written.length)).map s.byteAt =
      (t.unwrite offset).written := by
    rw [← hcontent, h.content, htotal]
    dsimp only [Tape.unwrite]
    congr 1
    omega
  by_cases hback : s.wrBlockPos < min offset t.written.length
  · obtain ⟨k, hk⟩ : ∃ k, s.pnodeWr = k + 1 := by
      refine Nat.exists_eq_succ_of_ne_zero fun h0 => ?_
      rw [h0, Nat.zero_mul] at hwr
      omega
    rw [hk, Nat.succ_mul] at hwr
    rw [if_pos hback, hk, if_neg (Nat.succ_ne_zero k)]
    simp only [Option.bind_eq_bind, Option.bind_some]
    rw [if_neg (by omega)]
    refine ⟨_, rfl, valid_of_eq ?_ ?_ ?_, hwritten, ?_, hplace, hpos⟩
    · dsimp only
      omega
    · dsimp only
      omega
    · dsimp only
      rw [Nat.add_sub_cancel]
      omega
    · dsimp only [Tape.unwrite]
      omega
  · rw [if_neg hback]
    simp only [Option.bind_eq_bind, Option.bind_some]
    rw [if_neg (by omega)]
    refine ⟨_, rfl, valid_of_eq ?_ ?_ ?_, hwritten, ?_, hplace, hpos⟩
    · exact hlt
    · dsimp only
      omega
    · dsimp only
      omega
    · dsimp only [Tape.unwrite]
      omega

lemma exists_backwardReading (h : s.Holds t) {offset : ℕ} (hpre : offset < streamBlockSize) :
    ∃ s', s.backwardReadingPtr offset = some (min offset t.read, s') ∧
      s'.Holds (t.back offset) := by
  have hread := h.read
  have hplace := h.place
  have hpos := h.pos
  unfold backwardReadingPtr
  have hoffset : (if s.rdTotalPos < offset ∧ offset < streamBlockSize then s.rdTotalPos
      else if streamBlockSize < offset then streamBlockSize else offset) = min offset t.read := by
    split_ifs <;> omega
  rw [hoffset]
  dsimp only
  by_cases hlt : s.rdBlockPos < min offset t.read
  · obtain ⟨k, hk⟩ : ∃ k, s.pnodeRd = k + 1 := by
      refine Nat.exists_eq_succ_of_ne_zero fun h0 => ?_
      rw [h0, Nat.zero_mul] at hplace
      omega
    rw [hk, Nat.succ_mul] at hplace
    rw [if_pos hlt, hk, if_neg (Nat.succ_ne_zero k)]
    refine ⟨_, rfl, h.move ⟨rfl, rfl, rfl, rfl⟩ rfl ?_ ?_ ?_⟩
    · dsimp only [Tape.back]
      omega
    · dsimp only
      rw [Nat.add_sub_cancel]
      omega
    · dsimp only
      omega
  · rw [if_neg hlt]
    refine ⟨_, rfl, h.move ⟨rfl, rfl, rfl, rfl⟩ rfl ?_ ?_ ?_⟩
    · dsimp only [Tape.back]
      omega
    · dsimp only
      omega
    · dsimp only
      omega

lemma exists_forwardReading (h : s.Holds t) {offset : ℕ} (hpre : offset < streamBlockSize) :
    ∃ s', s.forwardReadingPtr offset = some (min offset t.unread.length, s') ∧
      s'.Holds (t.skip offset) := by
  have hread := h.read
  have hplace := h.place
  have hpos := h.pos
  have htotal := h.total
  have hle := h.read_le
  have hwr := wrTotalPos_eq h.valid
  have hwrlt := wrBlockPos_lt h.valid
  rw [Tape.length_unread]
  unfold forwardReadingPtr
  have hoffset : (if (s.rdTotalPos ≤ s.wrTotalPos ∧ s.wrTotalPos - s.rdTotalPos < offset) ∧
        offset < streamBlockSize then s.wrTotalPos - s.rdTotalPos
      else if streamBlockSize < offset then streamBlockSize else offset) =
      min offset (t.written.length - t.read) := by
    split_ifs <;> omega
  rw [hoffset]
  dsimp only
  by_cases hlt : streamBlockSize - s.rdBlockPos < min offset (t.written.length - t.read)
  · have hnode : s.pnodeRd + 1 ≤ s.pnodeWr := by
      by_contra hgt
      have heq : s.pnodeRd = s.pnodeWr := le_antisymm h.node_le (by omega)
      rw [heq] at hplace
      omega
    have hlist := h.valid.lt
    rw [if_pos hlt, if_neg (by omega)]
    refine ⟨_, rfl, h.move ⟨rfl, rfl, rfl, rfl⟩ rfl ?_ ?_ ?_⟩
    · dsimp only [Tape.skip]
      omega
    · dsimp only
      rw [Nat.succ_mul]
      omega
    · dsimp only
      omega
  · rw [if_neg hlt]
    refine ⟨_, rfl, h.move ⟨rfl, rfl, rfl, rfl⟩ rfl ?_ ?_ ?_⟩
    · dsimp only [Tape.skip]
      omega
    · dsimp only
      omega
    · dsimp only
      omega

lemma holds_resetReading (h : s.Holds t) : s.resetReading.Holds t.rewind :=
  h.move ⟨rfl, rfl, rfl, rfl⟩ rfl rfl (by simp [resetReading]) (Nat.zero_le _)

/-- The bytes from the reading position on lie in the block that is read. -/
lemma Holds.read_block (h : s.Holds t) {n : ℕ} (hle : n ≤ t.unread.length)
    (hblock : s.rdBlockPos + n ≤ streamBlockSize) :
    (s.block s.pnodeRd).read s.rdBlockPos n = t.unread.take n := by
  have htotal := h.total
  have hread := h.read
  have hplace := h.place
  rw [Tape.length_unread] at hle
  rw [Stream.read_block s _ _ _ hblock (by have := h.read_le; omega), ← hplace, h.unread]

lemma exists_getbuffer (h : s.Holds t) (size : ℕ) :
    ∃ o s' u, s.call (.getbuffer size) = some (o, s') ∧ (Call.getbuffer size).OnTape t o u ∧
      s'.Holds u := by
  have htotal := h.total
  have hread := h.read
  have hplace := h.place
  have hpos := h.pos
  have hle := h.read_le
  have hwr := wrTotalPos_eq h.valid
  have hwrlt := wrBlockPos_lt h.valid
  have hunread := t.length_unread
  rw [call, getbufferForReading]
  by_cases hnode : s.pnodeWr ≠ s.pnodeRd
  · have hnext : (s.pnodeRd + 1) * streamBlockSize ≤ s.wrTotalPos := by
      have := Nat.mul_le_mul_right streamBlockSize
        (show s.pnodeRd + 1 ≤ s.pnodeWr by have := h.node_le; omega)
      omega
    rw [Nat.succ_mul] at hnext
    rw [if_pos hnode]
    dsimp only
    split_ifs with hsize
    · have hleft : streamBlockSize - s.rdBlockPos ≤ t.unread.length := by omega
      refine ⟨_, _, t.skip (streamBlockSize - s.rdBlockPos), rfl,
        .inr ⟨_, hsize, hleft, ?_, rfl⟩, h.move ⟨rfl, rfl, rfl, rfl⟩ rfl ?_ ?_ ?_⟩
      · rw [h.read_block hleft (by omega)]
      · dsimp only [Tape.skip]
        omega
      · dsimp only
        rw [Nat.succ_mul]
        omega
      · exact Nat.zero_le _
    · have hleft : size ≤ t.unread.length := by omega
      refine ⟨_, _, t.skip size, rfl, .inr ⟨_, le_rfl, hleft, ?_, rfl⟩,
        h.move ⟨rfl, rfl, rfl, rfl⟩ rfl ?_ ?_ ?_⟩
      · rw [h.read_block hleft (by omega)]
      · dsimp only [Tape.skip]
        omega
      · dsimp only
        omega
      · dsimp only
        omega
  · have hnode : s.pnodeWr = s.pnodeRd := not_not.mp hnode
    rw [if_neg (not_not.mpr hnode)]
    rw [hnode] at hwr
    split_ifs with hend
    · refine ⟨_, _, t, rfl, .inl ⟨?_, rfl, rfl⟩, h⟩
      exact List.length_eq_zero_iff.mp (by omega)
    · have hB : streamBlockSize = 65536 := rfl
      have hleft : (s.wrBlockPos + (2 ^ 64 - s.rdBlockPos)) % 2 ^ 64 =
          s.wrBlockPos - s.rdBlockPos := by omega
      rw [hleft]
      dsimp only
      split_ifs with hsize
      · have hunread' : s.wrBlockPos - s.rdBlockPos ≤ t.unread.length := by omega
        refine ⟨_, _, t.skip (s.wrBlockPos - s.rdBlockPos), rfl,
          .inr ⟨_, hsize.le, hunread', ?_, rfl⟩, h.move ⟨rfl, rfl, rfl, rfl⟩ rfl ?_ ?_ ?_⟩
        · rw [h.read_block hunread' (by omega)]
        · dsimp only [Tape.skip]
          omega
        · exact hwr
        · exact hwrlt.le
      · have hunread' : size ≤ t.unread.length := by omega
        refine ⟨_, _, t.skip size, rfl, .inr ⟨_, le_rfl, hunread', ?_, rfl⟩,
          h.move ⟨rfl, rfl, rfl, rfl⟩ rfl ?_ ?_ ?_⟩
        · rw [h.read_block hunread' (by omega)]
        · dsimp only [Tape.skip]
          omega
        · dsimp only
          omega
        · dsimp only
          omega

lemma memcpyAt_end {pbuff bytes : List UInt8} {n : ℕ} (h : pbuff.length = n) :
    memcpyAt pbuff n bytes = pbuff ++ bytes := by
  unfold memcpyAt
  rw [List.take_of_length_le h.le, List.drop_of_length_le (by omega), List.append_nil]

/-- The bytes at the beginning of a later block. -/
lemma Holds.read_start (h : s.Holds t) {k n tmpSize : ℕ}
    (hplace : s.rdTotalPos + tmpSize = k * streamBlockSize) (hblock : n ≤ streamBlockSize)
    (hle : tmpSize + n ≤ t.unread.length) :
    t.unread.take tmpSize ++ (s.block k).read 0 n = t.unread.take (tmpSize + n) := by
  have htotal := h.total
  have hread := h.read
  rw [Tape.length_unread] at hle
  have hlt := h.read_le
  rw [List.take_add, Stream.read_block s k 0 n (by omega) (by omega), ← h.unread, List.drop_drop,
    Nat.add_zero, hplace]

/-- The blocks behind the first one are copied from their beginnings. -/
lemma peekBlocks_eq (h : s.Holds t) {size left k tmpSize : ℕ} (hk : k + left = s.pnodeWr)
    (hplace : s.rdTotalPos + tmpSize = k * streamBlockSize) (hsize : tmpSize < size)
    (hmin : min size t.unread.length < 2 ^ 32 - streamBlockSize) :
    s.peekBlocks size (t.unread.length % 2 ^ 32) left k tmpSize (t.unread.take tmpSize) =
      t.unread.take size := by
  have htotal := h.total
  have hread := h.read
  have hle := h.read_le
  have hwr := wrTotalPos_eq h.valid
  have hwrlt := wrBlockPos_lt h.valid
  have hunread := t.length_unread
  induction left generalizing k tmpSize with
  | zero =>
    rw [Nat.add_zero] at hk
    have hlen : (t.unread.take tmpSize).length = tmpSize := by
      rw [List.length_take, hk] at *
      omega
    rw [hk] at hplace
    rw [peekBlocks, hk, memcpyAt_end hlen, memcpyAt_end hlen]
    split_ifs with hlast
    · rw [h.read_start hplace (by omega) (by omega), show tmpSize + (size - tmpSize) = size by omega,
        List.take_take, min_self]
    · have hall : tmpSize + s.wrBlockPos = t.unread.length := by omega
      have hB : streamBlockSize = 65536 := rfl
      rw [h.read_start hplace hwrlt.le hall.le, hall, List.take_length,
        Nat.mod_eq_of_lt (by omega), List.take_length, List.take_of_length_le (by omega)]
  | succ left ih =>
    have hnext : (k + 1) * streamBlockSize ≤ s.pnodeWr * streamBlockSize :=
      Nat.mul_le_mul_right _ (by omega)
    rw [Nat.succ_mul] at hnext
    have hlen : (t.unread.take tmpSize).length = tmpSize := by
      rw [List.length_take]
      omega
    have hsum : (tmpSize + streamBlockSize) % 2 ^ 32 = tmpSize + streamBlockSize :=
      Nat.mod_eq_of_lt (by omega)
    rw [peekBlocks, hsum, memcpyAt_end hlen, memcpyAt_end hlen]
    split_ifs with hlast
    · rw [h.read_start hplace (by omega) (by omega), show tmpSize + (size - tmpSize) = size by omega,
        List.take_take, min_self]
    · rw [h.read_start hplace le_rfl (by omega)]
      exact ih (by omega) (by rw [Nat.succ_mul]; omega) (by omega)

lemma peekBuffer_eq (h : s.Holds t) {size : ℕ} (hclear : (Call.peek size).Clear s) :
    s.peekBuffer size = some (t.unread.take size) := by
  obtain ⟨hfirst, hmin⟩ := hclear
  have htotal := h.total
  have hread := h.read
  have hle := h.read_le
  have hplace := h.place
  have hpos := h.pos
  have hwr := wrTotalPos_eq h.valid
  have hwrlt := wrBlockPos_lt h.valid
  have hunread := t.length_unread
  have hB : streamBlockSize = 65536 := rfl
  rw [peekBuffer]
  by_cases hend : s.wrTotalPos ≤ s.rdTotalPos
  · rw [if_pos hend, List.length_eq_zero_iff.mp (show t.unread.length = 0 by omega), List.take_nil]
  rw [if_neg hend]
  have hleft : s.wrTotalPos - s.rdTotalPos = t.unread.length := by omega
  rw [hleft] at hmin ⊢
  dsimp only
  by_cases h0 : size = 0
  · subst h0
    split_ifs <;> simp_all [Block.read]
  have hnode : s.pnodeRd = 0 := by omega
  rw [hnode, Nat.zero_mul, Nat.zero_add] at hplace
  have hblock {n : ℕ} (hn : n ≤ t.unread.length) (hn' : s.rdBlockPos + n ≤ streamBlockSize) :
      (s.block s.pnodeRd).read s.rdTotalPos n = t.unread.take n := by
    rw [hplace]
    exact h.read_block hn hn'
  by_cases hlast : s.pnodeRd = s.pnodeWr
  · rw [if_pos hlast, Nat.mod_eq_of_lt (by rw [← hlast, hnode] at hwr; omega)]
    rw [← hlast, hnode] at hwr
    split_ifs with hsize
    · rw [hblock hsize (by omega)]
    · rw [hblock le_rfl (by omega), List.take_length, List.take_of_length_le (by omega)]
  rw [if_neg hlast]
  have hnext : streamBlockSize ≤ s.pnodeWr * streamBlockSize :=
    Nat.le_mul_of_pos_left _ (by omega)
  split_ifs with hsize hgt
  · rw [hblock (by omega) (by omega)]
  · omega
  · rw [hblock (by omega) (by omega), peekBlocks_eq h (by omega) (by rw [hnode]; omega) (by omega)
      hmin]

lemma exists_concat (h : s.Holds t) {other : Stream} {u : Tape UInt8} (hother : other.Holds u)
    (hroom : s.wrTotalPos + (other.wrTotalPos - other.rdTotalPos) < s.capacity) :
    ∃ s', copy (other.pnodeWr - other.pnodeRd + 2) other s = some s' ∧
      s'.Holds (t.write (other.content.drop other.rdTotalPos)) := by
  have hplace := hother.place
  have hle := hother.read_le
  have hwr := wrTotalPos_eq hother.valid
  have hwrlt := wrBlockPos_lt hother.valid
  rcases hother.pos.lt_or_eq with hpos | hpos
  · obtain ⟨s', hs', hvalid, hcontent, -⟩ :=
      exists_copy hother.valid hpos (by omega) h.valid (by omega)
    rw [← hplace] at hcontent
    exact ⟨s', hs', h.write hvalid hcontent (sameReader_copy hs')⟩
  · -- the reader stands behind its block: the first buffer is empty
    have hnode : other.pnodeRd + 1 ≤ other.pnodeWr := by
      by_contra hgt
      have heq : other.pnodeRd = other.pnodeWr := le_antisymm hother.node_le (by omega)
      rw [heq] at hplace
      omega
    have hfirst := getbufferForReading_block (show other.pnodeWr ≠ other.pnodeRd by omega)
    rw [hpos, Nat.sub_self] at hfirst
    have hempty : s.write ((other.block other.pnodeRd).read streamBlockSize 0) = some s := by
      rw [write, dif_pos (by simp [Block.read])]
    have hvalid' : Valid { other with
        rdBlockPos := 0
        pnodeRd := other.pnodeRd + 1
        rdTotalPos := other.rdTotalPos + 0 } :=
      ⟨hother.valid.node, hother.valid.pos, hother.valid.lt⟩
    have hplace' : (other.pnodeRd + 1) * streamBlockSize + 0 = other.rdTotalPos := by
      rw [Nat.succ_mul]
      omega
    obtain ⟨s', hs', hvalid, hcontent, -⟩ :=
      exists_copy hvalid' streamBlockSize_pos (hplace'.trans_le hle) h.valid (by
        dsimp only
        omega)
    refine ⟨s', ?_, h.write hvalid ?_ (sameReader_copy hs')⟩
    · rw [show other.pnodeWr - other.pnodeRd + 2 = other.pnodeWr - (other.pnodeRd + 1) + 2 + 1 by
        omega, copy_of_some hfirst hempty]
      exact hs'
    · rw [hcontent, ← hplace']
      rfl

/-- **One call**: it comes to an end, and does on the tape what it should. -/
lemma exists_call (h : s.Holds t) {c : Call} (hpre : c.Pre s) (hclear : c.Clear s) :
    ∃ o s' u, s.call c = some (o, s') ∧ c.OnTape t o u ∧ s'.Holds u := by
  cases c with
  | write bytes =>
    obtain ⟨s', hs', hvalid, hcontent, -⟩ := exists_write h.valid bytes hpre
    exact ⟨_, s', _, by rw [call, hs']; rfl, ⟨rfl, rfl⟩,
      h.write hvalid hcontent (sameReader_write hs')⟩
  | fill size bytes =>
    obtain ⟨hsize, hroom⟩ := hpre
    have hlt := wrBlockPos_lt h.valid
    have hle : bytes.length ≤ streamBlockSize - s.wrBlockPos := by
      unfold getbufferForWriting at hsize
      split_ifs at hsize <;> omega
    obtain ⟨hvalid, hcontent⟩ := (write_chunk h.valid bytes hle).2.2.resolve_left
      (wrBlockPos_forwardWritingPtr h.valid bytes hle hroom).ne
    exact ⟨_, _, _, rfl, ⟨rfl, rfl⟩, h.write hvalid hcontent (sameReader_chunk s bytes _)⟩
  | backwardWriting offset =>
    obtain ⟨s', hs', hs'u⟩ := exists_backwardWriting h hpre hclear
    exact ⟨_, s', _, by rw [call, hs']; rfl, ⟨rfl, rfl⟩, hs'u⟩
  | getbuffer size => exact exists_getbuffer h size
  | backwardReading offset =>
    obtain ⟨s', hs', hs'u⟩ := exists_backwardReading h hpre
    exact ⟨_, s', _, by rw [call, hs']; rfl, ⟨rfl, rfl⟩, hs'u⟩
  | forwardReading offset =>
    obtain ⟨s', hs', hs'u⟩ := exists_forwardReading h hpre
    exact ⟨_, s', _, by rw [call, hs']; rfl, ⟨rfl, rfl⟩, hs'u⟩
  | peek size =>
    exact ⟨_, s, t, by rw [call, peekBuffer_eq h hclear]; rfl, ⟨rfl, rfl⟩, h⟩
  | resetReading => exact ⟨_, _, _, rfl, ⟨rfl, rfl⟩, holds_resetReading h⟩
  | concat other =>
    obtain ⟨⟨u, hother⟩, hroom⟩ := hpre
    obtain ⟨s', hs', hs'u⟩ := exists_concat h hother hroom
    exact ⟨_, s', _, by rw [call, hs']; rfl, ⟨rfl, rfl⟩, hs'u⟩

/-! ### Runs -/

/-- A call that keeps to what is documented, and one that besides does not lose the tape. -/
def Documented (s : Stream) (i : Call × Output) : Prop := i.1.Pre s

def Admitted (s : Stream) (i : Call × Output) : Prop := i.1.Pre s ∧ i.1.Clear s

def CallStep (s : Stream) (i : Call × Output) (s' : Stream) : Prop := s.call i.1 = some (i.2, s')

def TapeStep (t : Tape UInt8) (i : Call × Output) (u : Tape UInt8) : Prop := i.1.OnTape t i.2 u

lemma holds_streamInit (b : Block) (allocator : List Block) :
    (streamInit b allocator).Holds Tape.empty := by
  refine ⟨⟨?_, ?_, ?_⟩, rfl, rfl, ?_, Nat.zero_le _⟩
  · simp [streamInit]
  · simp [streamInit]
  · simp [streamInit]
  · simp [streamInit]

lemma step_keeps (s : Stream) (t : Tape UInt8) (i : Call × Output) (s' : Stream) (h : s.Holds t)
    (hadmits : Admitted s i) (hstep : CallStep s i s') :
    True ∧ ∃ u, TapeStep t i u ∧ s'.Holds u := by
  obtain ⟨o, s'', u, hcall, htape, hu⟩ := exists_call h hadmits.1 hadmits.2
  obtain ⟨rfl, rfl⟩ : i.2 = o ∧ s' = s'' := by
    have := hstep.symm.trans hcall
    simpa using this
  exact ⟨trivial, u, htape, hu⟩

open Runs in
/-- **The stream and its tape**: in a run of a new stream in which nothing is taken back that has
been read and no look ahead is made from a later block, every call comes to an end and returns
what it returns on the tape, and the stream holds the tape that the calls make of the empty one.
Going back and then as far forward leaves the tape as it is. -/
theorem run_holds (b : Block) (allocator : List Block) (calls : List (Call × Output)) (s : Stream)
    (h : Run Admitted CallStep (streamInit b allocator) calls s) :
    ∃ t, Run (fun _ _ => True) TapeStep Tape.empty calls t ∧ s.Holds t ∧
      (∀ c : Call, c.Pre s → c.Clear s →
        ∃ o s' u, s.call c = some (o, s') ∧ c.OnTape t o u ∧ s'.Holds u) ∧
      ∀ offset < streamBlockSize, offset ≤ t.read →
        ∃ s' s'', s.call (.backwardReading offset) = some (.offset offset, s') ∧
          s'.call (.forwardReading offset) = some (.offset offset, s'') ∧ s''.Holds t := by
  obtain ⟨t, hrun, ht⟩ := h.refines step_keeps (holds_streamInit b allocator)
  refine ⟨t, hrun, ht, fun c hpre hclear => exists_call ht hpre hclear, fun offset hlt hle => ?_⟩
  obtain ⟨s', hs', hback⟩ := exists_backwardReading ht hlt
  obtain ⟨s'', hs'', hforth⟩ := exists_forwardReading hback hlt
  have hread := t.read_le
  have hunread : offset ≤ (t.back offset).unread.length := by
    rw [Tape.length_unread]
    dsimp only [Tape.back]
    omega
  rw [min_eq_left hle] at hs'
  rw [min_eq_left hunread] at hs''
  rw [Tape.skip_back hle] at hforth
  exact ⟨s', s'', by rw [call, hs']; rfl, by rw [call, hs'']; rfl, hforth⟩

/-- Two bytes written into a block of zeros. -/
def twoWritten : Stream := ((streamInit (fun _ => 0) []).put [1, 2]).forwardWritingPtr 2

lemma pre_twoWritten : (Call.write [1, 2]).Pre (streamInit (fun _ => 0) []) :=
  show 0 + 2 < capacity _ by decide

lemma call_twoWritten : (streamInit (fun _ => 0) []).call (.write [1, 2]) =
    some (.done, twoWritten) := by
  rw [call, write_of_le (by simp) (by decide)]
  rfl

open Runs in
theorem run_holds_peek :
    ∃ s, Run Admitted CallStep (streamInit (fun _ => 0) [])
        [(.write [1, 2], .done), (.peek 1, .bytes (some [1]))] s ∧
      ∃ t, Run (fun _ _ => True) TapeStep Tape.empty
        [(.write [1, 2], .done), (.peek 1, .bytes (some [1]))] t ∧ s.Holds t := by
  have hrun : Run Admitted CallStep (streamInit (fun _ => 0) [])
      [(.write [1, 2], .done), (.peek 1, .bytes (some [1]))] twoWritten :=
    .cons ⟨pre_twoWritten, trivial⟩ call_twoWritten
      (.cons ⟨show 1 < 2 ^ 32 by decide, .inl rfl, by decide⟩ rfl (.nil _))
  obtain ⟨t, htape, ht, -⟩ := run_holds (fun _ => 0) [] _ _ hrun
  exact ⟨twoWritten, hrun, t, htape, ht⟩

open Runs in
/-- Two bytes are written and read, and one of them is taken back: the counters then say that two
bytes have been read of one. -/
theorem not_run_holds :
    ¬∀ (b : Block) (allocator : List Block) (calls : List (Call × Output)) (s : Stream),
      Run Documented CallStep (streamInit b allocator) calls s →
        ∃ t, Run (fun _ _ => True) TapeStep Tape.empty calls t ∧ s.Holds t := by
  intro h
  have hrun : Run Documented CallStep (streamInit (fun _ => 0) [])
      [(.write [1, 2], .done), (.getbuffer 2, .bytes (some [1, 2])),
        (.backwardWriting 1, .offset 1)]
      { twoWritten with rdBlockPos := 1, rdTotalPos := 2, wrBlockPos := 1, wrTotalPos := 1 } :=
    .cons pre_twoWritten call_twoWritten
      (.cons (show 2 < 2 ^ 32 by decide) rfl
        (.cons (show 1 < streamBlockSize by decide) rfl (.nil _)))
  obtain ⟨t, -, ht⟩ := h _ _ _ _ hrun
  exact absurd ht.read_le (by decide)

end Stream

end SteepSystem.Streams
