import Mathlib.Tactic

/-!
Stream objects as `stream_object.c` keeps them. Positions and lengths are `uint32_t`, and sums
of them are taken modulo `2 ^ 32`. An operation returns `none` where it would copy bytes from
or to outside a stream's content.
-/

namespace SteepSystem.StreamObjects

inductive ParentType
  | folder | message | attachment
  deriving DecidableEq

structure StreamObject where
  objectType : ParentType
  openFlags : ℕ
  seekPtr : ℕ
  content : List UInt8
  touched : Bool
  maxLength : ℕ
  deriving DecidableEq

def openstreamFlagReadonly : ℕ := 0

/-- A `uint32_t` sum. -/
def u32 (n : ℤ) : ℕ := (n % 2 ^ 32).toNat

/-- The `n` bytes from `off` on. -/
def bytesAt (content : List UInt8) (off n : ℕ) : Option (List UInt8) :=
  if off + n ≤ content.length then some ((content.drop off).take n) else none

/-- `memcpy` of `data` to `off` and on. -/
def memcpyAt (content : List UInt8) (off : ℕ) (data : List UInt8) : Option (List UInt8) :=
  if off + data.length ≤ content.length then
    some (content.take off ++ data ++ content.drop (off + data.length))
  else none

def streamObjectRead (pstream : StreamObject) (bufLen : ℕ) :
    Option (List UInt8 × StreamObject) :=
  if pstream.content.length ≤ pstream.seekPtr then some ([], pstream)
  else
    let length :=
      if u32 (pstream.seekPtr + bufLen) > pstream.content.length then
        (pstream.content.length - pstream.seekPtr) % 2 ^ 16
      else bufLen
    (bytesAt pstream.content pstream.seekPtr length).map fun data =>
      (data, { pstream with seekPtr := u32 (pstream.seekPtr + length) })

/-- `mem` tells whether `realloc` grants the longer buffer. -/
def streamObjectSetLength (pstream : StreamObject) (length : ℕ) (mem : Bool) :
    Bool × StreamObject :=
  if pstream.openFlags = openstreamFlagReadonly then (false, pstream)
  else if length > pstream.content.length then
    if length > pstream.maxLength then (false, pstream)
    else if mem then
      (true, { pstream with
        content := pstream.content ++ List.replicate (length - pstream.content.length) 0
        touched := true })
    else (false, pstream)
  else
    (true, { pstream with
      seekPtr := if pstream.seekPtr > length then length else pstream.seekPtr
      content := pstream.content.take length
      touched := true })

/-- `appended` tells whether the message or attachment takes the stream in its list, when there
is one to be asked. -/
def streamObjectWrite (pstream : StreamObject) (data : List UInt8) (mem appended : Bool) :
    Option (ℕ × StreamObject) :=
  if pstream.openFlags = openstreamFlagReadonly then some (0, pstream)
  else if pstream.content.length ≥ pstream.maxLength ∧
      pstream.seekPtr ≥ pstream.content.length then some (0, pstream)
  else
    let grown := if u32 (pstream.seekPtr + data.length) > pstream.content.length then
      streamObjectSetLength pstream (u32 (pstream.seekPtr + data.length)) mem
    else (true, pstream)
    if ¬ grown.1 then some (0, grown.2)
    else if pstream.objectType ≠ .folder ∧ ¬ appended then some (0, grown.2)
    else
      (memcpyAt grown.2.content pstream.seekPtr data).map fun content =>
        (data.length, { grown.2 with
          content := content
          seekPtr := u32 (pstream.seekPtr + data.length)
          touched := true })

def streamObjectSeek (pstream : StreamObject) (opt : ℕ) (offset : ℤ) (mem : Bool) :
    Bool × StreamObject :=
  match opt with
  | 0 =>
    if offset ≤ 0 then (true, { pstream with seekPtr := 0 })
    else if u32 offset > pstream.content.length then
      match streamObjectSetLength pstream (u32 offset) mem with
      | (false, pstream) => (false, pstream)
      | (true, pstream) => (true, { pstream with seekPtr := u32 offset })
    else (true, { pstream with seekPtr := u32 offset })
  | 1 =>
    if offset < 0 then
      -- The sum is unsigned, so it is never found to be below zero.
      if u32 (pstream.seekPtr + offset) < 0 then (true, { pstream with seekPtr := 0 })
      else (true, { pstream with seekPtr := u32 (pstream.seekPtr + offset) })
    else if u32 (offset + pstream.seekPtr) > pstream.content.length then
      match streamObjectSetLength pstream (u32 (pstream.seekPtr + offset)) mem with
      | (false, pstream) => (false, pstream)
      | (true, pstream) => (true, { pstream with seekPtr := u32 (pstream.seekPtr + offset) })
    else (true, { pstream with seekPtr := u32 (pstream.seekPtr + offset) })
  | 2 =>
    match (if offset > 0 then
        streamObjectSetLength pstream (u32 (pstream.content.length + offset)) mem
      else (true, pstream)) with
    | (false, pstream) => (false, pstream)
    | (true, pstream) =>
      let seekPtr := u32 (pstream.content.length + offset)
      (true, { pstream with seekPtr := if seekPtr < 0 then 0 else seekPtr })
  | _ => (false, pstream)

/-- The checks of `rop_seekstream` on the origin and the 64-bit offset, then the seek. -/
def ropSeekstream (pstream : StreamObject) (seekPos : ℕ) (offset : ℤ) (mem : Bool) :
    Bool × StreamObject :=
  if seekPos > 2 then (false, pstream)
  else if offset > 0x7FFFFFFF ∨ offset < -0x7FFFFFFF then (false, pstream)
  else streamObjectSeek pstream seekPos offset mem

/-- The end of a copy: the bytes, then the two positions. -/
def copyBytes (w : ℕ → StreamObject) (dst src length : ℕ) : Option (ℕ → StreamObject) := do
  let data ← bytesAt (w src).content (w src).seekPtr length
  let content ← memcpyAt (w dst).content (w dst).seekPtr data
  let w := Function.update w dst
    { w dst with content := content, seekPtr := u32 ((w dst).seekPtr + length) }
  return Function.update w src { w src with seekPtr := u32 ((w src).seekPtr + length) }

/-- Copying among streams held by number; the two may be the same one. -/
def streamObjectCopy (w : ℕ → StreamObject) (dst src length : ℕ) (mem : Bool) :
    Option (Bool × ℕ × (ℕ → StreamObject)) :=
  if (w src).seekPtr ≥ (w src).content.length then some (true, 0, w)
  else if (w dst).seekPtr ≥ (w dst).maxLength then some (true, 0, w)
  else
    let length := if u32 ((w src).seekPtr + length) > (w src).content.length then
      (w src).content.length - (w src).seekPtr else length
    let length := if u32 ((w dst).seekPtr + length) > (w dst).maxLength then
      (w dst).maxLength - (w dst).seekPtr else length
    let grown := if u32 ((w dst).seekPtr + length) > (w dst).content.length then
      streamObjectSetLength (w dst) (u32 ((w dst).seekPtr + length)) mem
    else (true, w dst)
    if ¬ grown.1 then some (false, length, w)
    else (copyBytes (Function.update w dst grown.2) dst src length).map fun w => (true, length, w)

/-- A call on the stream, or the streams, of the given number. -/
inductive Op
  | read (i bufLen : ℕ)
  | write (i : ℕ) (data : List UInt8) (mem appended : Bool)
  | seek (i opt : ℕ) (offset : ℤ) (mem : Bool)
  | setLength (i length : ℕ) (mem : Bool)
  | copy (dst src length : ℕ) (mem : Bool)

inductive Result
  | bytes (data : List UInt8)
  | size (n : ℕ)
  | ok (b : Bool)
  | copied (b : Bool) (n : ℕ)
  deriving DecidableEq

def exec (w : ℕ → StreamObject) : Op → Option (Result × (ℕ → StreamObject))
  | .read i bufLen =>
    (streamObjectRead (w i) bufLen).map fun r => (.bytes r.1, Function.update w i r.2)
  | .write i data mem appended =>
    (streamObjectWrite (w i) data mem appended).map fun r =>
      (.size r.1, Function.update w i r.2)
  | .seek i opt offset mem =>
    let r := ropSeekstream (w i) opt offset mem
    some (.ok r.1, Function.update w i r.2)
  | .setLength i length mem =>
    let r := streamObjectSetLength (w i) length mem
    some (.ok r.1, Function.update w i r.2)
  | .copy dst src length mem =>
    (streamObjectCopy w dst src length mem).map fun r => (.copied r.1 r.2.1, r.2.2)

end SteepSystem.StreamObjects
