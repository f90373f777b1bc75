import SteepSystem.Lib.Blocks

/-!
The files in memory of `mem_file.c`: a list of blocks of 256 bytes, a pointer for reading and one
for writing, each with its node, its position in the node and its position in the file.
-/

namespace SteepSystem.MemFiles

open SteepSystem.Lib.Blocks

def fileBlockSize : ℕ := 0x100

/-- The node is numbered from the head of the list; the number behind the last one is `NULL`. -/
structure Pointer where
  node : ℕ
  blockPos : ℕ
  totalPos : ℕ
  deriving DecidableEq

structure MemFile where
  list : List (Block UInt8)
  /-- The blocks that the allocator can still give. -/
  allocator : List (Block UInt8)
  rd : Pointer
  wr : Pointer
  fileTotalLen : ℕ

inductive PointerType
  | readPtr
  | writePtr
  deriving DecidableEq

inductive SeekOption
  | begin
  | cur
  | fromEnd
  deriving DecidableEq

def newline : UInt8 := 10

namespace MemFile

def init (b : Block UInt8) (allocator : List (Block UInt8)) : MemFile :=
  ⟨[b], allocator, ⟨0, 0, 0⟩, ⟨0, 0, 0⟩, 0⟩

/-- The list keeps its first node. -/
def clear (f : MemFile) : MemFile :=
  ⟨f.list.take 1, f.list.drop 1 ++ f.allocator, ⟨0, 0, 0⟩, ⟨0, 0, 0⟩, 0⟩

/-- Up to so many nodes more, and how many there were. -/
def appendNodes (f : MemFile) (blocks : ℕ) : ℕ × MemFile :=
  (min blocks f.allocator.length,
    { f with
      list := f.list ++ f.allocator.take blocks
      allocator := f.allocator.drop blocks })

/-- A number of type `int` of which some has been taken off, as `size_t`. -/
def remainsOf (size taken : ℕ) : ℕ := ((Int.bmod size (2 ^ 32) - taken) % 2 ^ 64).toNat

/-! ### Reading -/

/-- The loop over whole blocks. -/
def readBlocks (f : MemFile) : ℕ → ℕ → Option (List UInt8 × ℕ)
  | 0, k => some ([], k)
  | n + 1, k => do
    let b ← f.list[k]?
    let (bytes, node) ← readBlocks f n (k + 1)
    return (b.read 0 fileBlockSize ++ bytes, node)

/-- The bytes, or `MEM_END_OF_FILE`. Without a result where the code leaves the list or a
block. -/
def read (f : MemFile) (size : ℕ) : Option (Option (List UInt8) × MemFile) :=
  if f.fileTotalLen ≤ f.rd.totalPos then some (none, f)
  else do
    let distance := f.fileTotalLen - f.rd.totalPos
    let size := if distance < size then distance else size
    let b ← f.list[f.rd.node]?
    let left := fileBlockSize - f.rd.blockPos
    if size < left then
      return (some (b.read f.rd.blockPos size),
        { f with rd := ⟨f.rd.node, f.rd.blockPos + size, f.rd.totalPos + size⟩ })
    else
      let blocks :=
        if f.rd.blockPos ≠ 0 then (size - left) / fileBlockSize else size / fileBlockSize - 1
      let (bytes, node) ← f.readBlocks blocks (f.rd.node + 1)
      let remains := remainsOf size (left + blocks * fileBlockSize)
      let last ← f.list[node]?
      if fileBlockSize < remains then none
      else
        return (some (b.read f.rd.blockPos left ++ bytes ++ last.read 0 remains),
          { f with rd := ⟨node, remains, f.rd.totalPos + size⟩ })

/-- Where the search for a newline between two positions of a block stops. -/
def lineEnd (b : Block UInt8) (pos stop : ℕ) : ℕ :=
  pos + ((b.read pos (stop - pos)).takeWhile (· ≠ newline)).length

/-- The loop over whole blocks: the bytes so far, the node, and the position of the newline, if
there was one. -/
def readlineBlocks (f : MemFile) : ℕ → ℕ → List UInt8 → Option (List UInt8 × ℕ × Option ℕ)
  | 0, k, pbuff => some (pbuff, k, none)
  | n + 1, k, pbuff => do
    let b ← f.list[k]?
    let i := lineEnd b 0 fileBlockSize
    if i ≠ fileBlockSize then return (pbuff ++ b.read 0 i, k, some i)
    else readlineBlocks f n (k + 1) (pbuff ++ b.read 0 fileBlockSize)

/-- The rest of `mem_file_readline`, when the line goes on behind its block. -/
def readlineAcross (f : MemFile) (distance : ℕ) (pbuff : List UInt8) :
    Option (Option (List UInt8) × MemFile) := do
  -- the position in the file stands where that in the block is meant
  let blocks :=
    if f.rd.totalPos ≠ 0 then (distance + f.rd.totalPos - fileBlockSize) / fileBlockSize + 1
    else distance / fileBlockSize
  let (pbuff, k, found) ← f.readlineBlocks (blocks - 1) (f.rd.node + 1) pbuff
  match found with
  | some i =>
    let total := f.rd.totalPos + pbuff.length + 1
    let rd := if i + 1 = fileBlockSize then ⟨k + 1, 0, total⟩ else ⟨k, i + 1, total⟩
    return (some pbuff, { f with rd })
  | none =>
    let b ← f.list[k]?
    let stop := (distance - (fileBlockSize - f.rd.blockPos)) % fileBlockSize
    let i := lineEnd b 0 stop
    let pbuff := pbuff ++ b.read 0 i
    let rd :=
      if i ≠ stop then ⟨k, i + 1, f.rd.totalPos + pbuff.length + 1⟩
      else ⟨k, i, f.rd.totalPos + pbuff.length⟩
    return (some pbuff, { f with rd })

def readline (f : MemFile) (size : ℕ) : Option (Option (List UInt8) × MemFile) :=
  if size = 0 then some (some [], f)
  else if f.fileTotalLen ≤ f.rd.totalPos then some (none, f)
  else do
    let size := size - 1
    let b ← f.list[f.rd.node]?
    let stop :=
      if f.rd.node + 1 = f.list.length then f.fileTotalLen % fileBlockSize else fileBlockSize
    let i := lineEnd b f.rd.blockPos stop
    let actualSize := i - f.rd.blockPos
    if size < actualSize then
      return (some (b.read f.rd.blockPos size),
        { f with rd := ⟨f.rd.node, f.rd.blockPos + size, f.rd.totalPos + size⟩ })
    else if f.rd.node + 1 = f.list.length then
      let size := if i ≠ stop then actualSize + 1 else actualSize
      return (some (b.read f.rd.blockPos actualSize),
        { f with rd := ⟨f.rd.node, f.rd.blockPos + size, f.rd.totalPos + size⟩ })
    else if i ≠ fileBlockSize then
      let size := actualSize + 1
      let rd :=
        if f.rd.blockPos + size = fileBlockSize then ⟨f.rd.node + 1, 0, f.rd.totalPos + size⟩
        else ⟨f.rd.node, f.rd.blockPos + size, f.rd.totalPos + size⟩
      return (some (b.read f.rd.blockPos actualSize), { f with rd })
    else
      let distance := f.fileTotalLen - f.rd.totalPos
      let distance := if size < distance then size else distance
      f.readlineAcross distance (b.read f.rd.blockPos actualSize)

/-! ### Writing -/

def writeBlocks : ℕ → ℕ → List UInt8 → List (Block UInt8) → Option (ℕ × List UInt8 × List (Block UInt8))
  | 0, k, pbuff, list => some (k, pbuff, list)
  | n + 1, k, pbuff, list =>
    if k < list.length then
      writeBlocks n (k + 1) (pbuff.drop fileBlockSize)
        (list.modify k fun b => b.fill 0 (pbuff.take fileBlockSize))
    else none

/-- The copying of `mem_file_write`, once the blocks are there. -/
def writeBytes (f : MemFile) (pbuff : List UInt8) : Option MemFile := do
  let size := pbuff.length
  let left := fileBlockSize - f.wr.blockPos
  if f.list.length ≤ f.wr.node then none
  else if size < left then
    return { f with
      list := f.list.modify f.wr.node fun b => b.fill f.wr.blockPos pbuff
      wr := ⟨f.wr.node, f.wr.blockPos + size, f.wr.totalPos + size⟩
      fileTotalLen := max f.fileTotalLen (f.wr.totalPos + size) }
  else
    let blocks :=
      if f.wr.blockPos ≠ 0 then (size - left) / fileBlockSize else size / fileBlockSize - 1
    let (node, rest, list) ← writeBlocks blocks (f.wr.node + 1) (pbuff.drop left)
      (f.list.modify f.wr.node fun b => b.fill f.wr.blockPos (pbuff.take left))
    let remains := remainsOf size (left + blocks * fileBlockSize)
    if list.length ≤ node ∨ fileBlockSize < remains then none
    else
      return { f with
        list := list.modify node fun b => b.fill 0 (rest.take remains)
        wr := ⟨node, remains, f.wr.totalPos + size⟩
        fileTotalLen := max f.fileTotalLen (f.wr.totalPos + size) }

/-- How many bytes are written, fewer than there are only if the allocator runs dry. -/
def write (f : MemFile) (pbuff : List UInt8) : Option (ℕ × MemFile) := do
  let size := pbuff.length
  let room := f.fileTotalLen - f.wr.totalPos
  let curEnd := f.fileTotalLen % fileBlockSize
  let blocks :=
    if size ≤ room ∨ size - room < fileBlockSize - curEnd then 0
    else if curEnd ≠ 0 then (size - room - (fileBlockSize - curEnd)) / fileBlockSize + 1
    else (size - room) / fileBlockSize
  let (i, f) := f.appendNodes blocks
  let size :=
    if i ≠ blocks then i * fileBlockSize + fileBlockSize - curEnd + room - 1 else size
  let f ← f.writeBytes (pbuff.take size)
  return (size, f)

/-- With a newline behind it. The call that is to step back has its last two arguments the wrong
way round: `-1` is no option, and nothing is moved. -/
def writeline (f : MemFile) (pbuff : List UInt8) : Option (ℕ × MemFile) := do
  let (written, f) ← f.write pbuff
  if pbuff.length = written then
    let (n, f) ← f.write [newline]
    if n = 1 then return (pbuff.length, f)
    else
      let (_, f) ← f.write [newline]
      return (pbuff.length - 1, f)
  else return (written, f)

/-! ### The pointers -/

/-- A sum of type `size_t`. -/
def sizeAdd (n : ℕ) (offset : ℤ) : ℕ := ((n + offset) % 2 ^ 64).toNat

/-- `mem_file_seek` for one of the pointers. A negative offset is added to unsigned positions,
and neither comparison with zero ever fails. -/
def seekPointer (f : MemFile) (p : Pointer) (offset : ℤ) : SeekOption → Pointer
  | .begin =>
    if offset < 0 then p
    else
      let offset := min offset.toNat f.fileTotalLen
      if offset < fileBlockSize then ⟨0, offset, offset⟩
      else ⟨min (offset / fileBlockSize) (f.list.length - 1), offset % fileBlockSize, offset⟩
  | .cur =>
    if offset = 0 then p
    else if offset < 0 then
      ⟨p.node, sizeAdd p.blockPos offset, sizeAdd p.totalPos offset⟩
    else
      let offset := offset.toNat
      if f.fileTotalLen ≤ offset + p.totalPos then
        ⟨f.list.length - 1, f.fileTotalLen % fileBlockSize, f.fileTotalLen⟩
      else if offset + p.blockPos < fileBlockSize then
        ⟨p.node, p.blockPos + offset, p.totalPos + offset⟩
      else
        let left := fileBlockSize - p.blockPos
        let blocks :=
          if p.blockPos ≠ 0 then (offset - left) / fileBlockSize + 1 else offset / fileBlockSize
        ⟨min (p.node + blocks) (f.list.length - 1), (offset - left) % fileBlockSize,
          p.totalPos + offset⟩
  | .fromEnd =>
    if 0 < offset then p
    else
      let back := min (-offset).toNat f.fileTotalLen
      let stop := f.fileTotalLen % fileBlockSize
      if back ≤ stop then ⟨f.list.length - 1, stop - back, f.fileTotalLen - back⟩
      else
        let blocks := (back - stop) / fileBlockSize + 1
        let blockPos := fileBlockSize - (back - stop) % fileBlockSize
        if blockPos = fileBlockSize then
          ⟨f.list.length - 1 - (blocks - 1), 0, f.fileTotalLen - back⟩
        else ⟨f.list.length - 1 - blocks, blockPos, f.fileTotalLen - back⟩

def seek (f : MemFile) (type : PointerType) (offset : ℤ) (opt : SeekOption) : MemFile :=
  match type with
  | .readPtr => { f with rd := f.seekPointer f.rd offset opt }
  | .writePtr => { f with wr := f.seekPointer f.wr offset opt }

/-! ### Copying -/

/-- The copy in `pfile_dst`, and the number of bytes. The node of the reading pointer is left at
the head. -/
def copy (src dst : MemFile) : ℕ × MemFile :=
  let dst := dst.clear
  let (i, dst) := dst.appendNodes (src.list.length - 1)
  if i ≠ src.list.length - 1 then (0, dst.clear)
  else
    (src.fileTotalLen, { dst with
      list := dst.list.zipWith (fun d b j => if j < fileBlockSize then b j else d j) src.list
      rd := ⟨0, src.rd.blockPos, src.rd.totalPos⟩
      wr := ⟨src.wr.totalPos / fileBlockSize, src.wr.blockPos, src.wr.totalPos⟩
      fileTotalLen := src.fileTotalLen })

end MemFile

end SteepSystem.MemFiles
