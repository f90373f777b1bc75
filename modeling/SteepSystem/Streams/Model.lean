import Mathlib.Tactic

/-!
The stream of `stream.c` and its functions for the end of a message. A stream is a list of blocks,
and what has not been written in a block is what its last user has left there. The positions of
lines are left out.
-/

namespace SteepSystem.Streams

def streamBlockSize : ℕ := 0x10000

/-- The memory of a node, written or not. -/
abbrev Block := ℕ → UInt8

def Block.read (b : Block) (pos length : ℕ) : List UInt8 :=
  (List.range length).map fun i => b (pos + i)

inductive EomResult
  | waiting
  | crlf
  | crorlf
  deriving DecidableEq

/-- The answer of `stream_has_eom`. -/
inductive Eom
  | none
  | net
  | dirty
  deriving DecidableEq

/-- The nodes are numbered from the head of the list; `allocator` has the blocks that it can still
give. -/
structure Stream where
  list : List Block
  allocator : List Block
  pnodeRd : ℕ
  pnodeWr : ℕ
  eomResult : EomResult
  rdBlockPos : ℕ
  wrBlockPos : ℕ
  rdTotalPos : ℕ
  wrTotalPos : ℕ
  lastEomParse : ℕ

def cr : UInt8 := 13

def lf : UInt8 := 10

def dot : UInt8 := 46

namespace Stream

def block (s : Stream) (k : ℕ) : Block := s.list.getD k fun _ => 0

/-- The list keeps its first node. -/
def clear (s : Stream) : Stream where
  list := s.list.take 1
  allocator := s.list.drop 1 ++ s.allocator
  pnodeRd := 0
  pnodeWr := 0
  eomResult := .waiting
  rdBlockPos := 0
  wrBlockPos := 0
  rdTotalPos := 0
  wrTotalPos := 0
  lastEomParse := 0

/-! ### Writing -/

def appendNode (s : Stream) : Stream :=
  if s.pnodeWr + 1 ≠ s.list.length then
    { s with pnodeWr := s.pnodeWr + 1, wrBlockPos := 0 }
  else
    match s.allocator with
    | [] => s
    | b :: allocator =>
      { s with list := s.list ++ [b], allocator, pnodeWr := s.pnodeWr + 1, wrBlockPos := 0 }

/-- The `memcpy` to the buffer for writing. -/
def put (s : Stream) (bytes : List UInt8) : Stream :=
  { s with
    list := s.list.modify s.pnodeWr fun b j =>
      if s.wrBlockPos ≤ j then bytes.getD (j - s.wrBlockPos) (b j) else b j }

def forwardWritingPtr (s : Stream) (offset : ℕ) : Stream :=
  let s := { s with
    wrBlockPos := s.wrBlockPos + offset
    wrTotalPos := s.wrTotalPos + offset }
  if s.wrBlockPos = streamBlockSize then s.appendNode else s

/-- If the last block is full, the buffer is of no size, and the loop does not end. -/
def write (s : Stream) (bytes : List UInt8) : Option Stream :=
  let size := streamBlockSize - s.wrBlockPos
  if _h : bytes = [] then some s
  else if _h' : size = 0 then none
  else
    let actualSize := min bytes.length size
    write ((s.put (bytes.take actualSize)).forwardWritingPtr actualSize) (bytes.drop actualSize)
termination_by bytes.length
decreasing_by
  have := List.length_pos_iff.mpr _h
  rw [List.length_drop]
  omega

/-! ### The Mark -/

def hasEom (s : Stream) : Eom :=
  match s.eomResult with
  | .waiting => .none
  | .crlf => if s.lastEomParse + 3 = s.wrTotalPos then .net else .dirty
  | .crorlf => if s.lastEomParse + 2 = s.wrTotalPos then .net else .dirty

/-- The bytes of `temp_buff` before the dot; nothing where the code goes to `NONE_EOM`. -/
def tempBefore (s : Stream) (k j : ℕ) : Option (UInt8 × UInt8) :=
  if j = 0 then
    if k = 0 then none
    else some (s.block (k - 1) (streamBlockSize - 2), s.block (k - 1) (streamBlockSize - 1))
  else if j = 1 then
    if k = 0 then none else some (s.block (k - 1) (streamBlockSize - 1), s.block k 0)
  else some (s.block k (j - 2), s.block k (j - 1))

/-- The bytes behind it; nothing where the loop goes on. `count` is `from_pos + 1`. -/
def tempAfter (s : Stream) (i k count j : ℕ) : Option (UInt8 × UInt8) :=
  if j + 2 = count then
    some (s.block k (j + 1),
      if i = 0 then 0
      else
        match s.list[k + 1]? with
        | none => 0
        | some b => b 0)
  else if j + 1 = count then
    if i = 0 then none
    else
      match s.list[k + 1]? with
      | none => none
      | some b => some (b 0, b 1)
  else some (s.block k (j + 1), s.block k (j + 2))

/-- What `temp_buff` is equal to. The shorter strings end with a zero. -/
def compareTemp (t₀ t₁ t₃ t₄ : UInt8) : Option EomResult :=
  if t₀ = cr ∧ t₁ = lf ∧ t₃ = cr ∧ t₄ = lf then some .crlf
  else if (t₁ = lf ∧ t₃ = lf ∨ t₁ = cr ∧ t₃ = cr) ∧ t₄ = 0 then some .crorlf
  else none

inductive Scanned
  | next
  | noneEom
  | found (result : EomResult) (j : ℕ)

/-- The loop over `j`, downwards. -/
def scanBlock (s : Stream) (i k count untilPos : ℕ) : ℕ → Scanned
  | 0 => .next
  | j + 1 =>
    if j < untilPos then .next
    else if s.block k j = dot then
      match s.tempBefore k j with
      | none => .noneEom
      | some (t₀, t₁) =>
        match s.tempAfter i k count j with
        | none => scanBlock s i k count untilPos j
        | some (t₃, t₄) =>
          match compareTemp t₀ t₁ t₃ t₄ with
          | some result => .found result j
          | none => scanBlock s i k count untilPos j
    else scanBlock s i k count untilPos j

/-- The loop over `i`; so many passes follow. -/
def scanBlocks (s : Stream) (left i : ℕ) : Option (EomResult × ℕ) :=
  let k := s.pnodeWr - i
  let untilPos := if left = 0 then s.lastEomParse % streamBlockSize else 0
  let count := if i = 0 then s.wrBlockPos else streamBlockSize
  match s.scanBlock i k count untilPos count with
  | .found result j => some (result, (s.wrTotalPos / streamBlockSize - i) * streamBlockSize + j)
  | .noneEom => none
  | .next =>
    match left with
    | 0 => none
    | left + 1 => if k = 0 then none else scanBlocks s left (i + 1)
termination_by structural left

def tryMarkEom (s : Stream) : Stream :=
  if s.eomResult ≠ .waiting then s
  else
    let blockDeep := s.wrTotalPos / streamBlockSize - s.lastEomParse / streamBlockSize
    match s.scanBlocks blockDeep 0 with
    | some (eomResult, lastEomParse) => { s with eomResult, lastEomParse }
    | none => { s with lastEomParse := if 2 ≤ s.wrTotalPos then s.wrTotalPos - 2 else 0 }

/-! ### The Split -/

/-- The bytes of the buffer for reading, and the stream behind them. -/
def getbufferForReading (s : Stream) (size : ℕ) : Option (List UInt8 × Stream) :=
  if s.pnodeWr ≠ s.pnodeRd then
    let left := streamBlockSize - s.rdBlockPos
    if left ≤ size then
      some ((s.block s.pnodeRd).read s.rdBlockPos left,
        { s with rdBlockPos := 0, pnodeRd := s.pnodeRd + 1, rdTotalPos := s.rdTotalPos + left })
    else
      some ((s.block s.pnodeRd).read s.rdBlockPos size,
        { s with rdBlockPos := s.rdBlockPos + size, rdTotalPos := s.rdTotalPos + size })
  else if s.rdBlockPos = s.wrBlockPos then none
  else
    let left := (s.wrBlockPos + (2 ^ 64 - s.rdBlockPos)) % 2 ^ 64
    if left < size then
      some ((s.block s.pnodeRd).read s.rdBlockPos left,
        { s with rdBlockPos := s.wrBlockPos, rdTotalPos := s.wrTotalPos })
    else
      some ((s.block s.pnodeRd).read s.rdBlockPos size,
        { s with rdBlockPos := s.rdBlockPos + size, rdTotalPos := s.rdTotalPos + size })

/-- The loop that fills the second stream. -/
def copy : ℕ → Stream → Stream → Option Stream
  | 0, _, _ => none
  | fuel + 1, fake, second =>
    match fake.getbufferForReading streamBlockSize with
    | none => some second
    | some (bytes, fake) =>
      match second.write bytes with
      | none => none
      | some second => copy fuel fake second

/-- So many nodes before the one that is written to. -/
def before (s : Stream) (blocks : ℤ) : Option ℕ :=
  if blocks ≤ s.pnodeWr then some (s.pnodeWr - blocks.toNat) else none

/-- The stream without the mark, up to the dot. -/
def truncateEom (s : Stream) : Stream :=
  match s.before (s.wrTotalPos / streamBlockSize - s.lastEomParse / streamBlockSize : ℕ) with
  | none => s
  | some pnodeWr =>
    { s with
      pnodeWr
      wrTotalPos := s.lastEomParse
      wrBlockPos := s.lastEomParse % streamBlockSize
      eomResult := .waiting
      lastEomParse := 0 }

def terminatorLength : EomResult → ℕ
  | .waiting => 0
  | .crlf => 3
  | .crorlf => 2

/-- The position behind the terminator, of type `int`. -/
def fakePos (s : Stream) : ℤ :=
  Int.bmod (s.lastEomParse + terminatorLength s.eomResult : ℕ) (2 ^ 32)

/-- So many blocks lie between it and the end of the stream, of type `int` as well. -/
def fakeBlocks (s : Stream) : ℤ :=
  Int.bmod ((s.wrTotalPos / streamBlockSize : ℕ) - s.fakePos.tdiv streamBlockSize) (2 ^ 32)

/-- The stream that is read from there. -/
def fakeStream (s : Stream) (pnodeRd : ℕ) : Stream :=
  { s with
    rdTotalPos := (s.fakePos % 2 ^ 64).toNat
    rdBlockPos := (s.fakePos.tmod streamBlockSize % 2 ^ 64).toNat
    pnodeRd }

def splitEom (fuel : ℕ) (s : Stream) (second : Option Stream) : Option (Stream × Option Stream) :=
  if s.eomResult = .waiting then some (s, second)
  else
    match s.before s.fakeBlocks with
    | none => some (s, second)
    | some pnodeRd =>
      match second with
      | none => some (s.truncateEom, none)
      | some second =>
        match copy fuel (s.fakeStream pnodeRd) second.clear with
        | none => none
        | some second => some (s.truncateEom, some second)

end Stream

end SteepSystem.Streams
