import SteepSystem.Idsets.Model

/-!
The binary form of a set with replica numbers: the globset encoder, the stack machine that
decodes it, and the two calls over whole sets. A binary is its list of bytes; a read past the
end of one has no defined result, `none`.
-/

namespace SteepSystem.Idsets.Globset

open SteepSystem.Lib.Bytes SteepSystem.Lib.Ranges SteepSystem.RopUtil SteepSystem.Idsets.Model

def idsetEncodingPushCommand (length : ℕ) (pcommonBytes : List UInt8) : Option (List UInt8) :=
  if 6 < length then none else some (UInt8.ofNat length :: pcommonBytes.take length)

def idsetEncodingPopCommand : List UInt8 := [0x50]

def idsetEncodeRangeCommand (length : ℕ) (plowBytes phighBytes : List UInt8) :
    Option (List UInt8) :=
  if 6 < length ∨ length = 0 then none
  else some (0x52 :: (plowBytes.take length ++ phighBytes.take length))

def idsetEncodeEndCommand : List UInt8 := [0]

/-- How many leading bytes two strings have in common. -/
def commonLength : List UInt8 → List UInt8 → ℕ
  | a :: as, b :: bs => if a = b then commonLength as bs + 1 else 0
  | _, _ => 0

/-- One turn of the loop of `idset_encoding_globset`. -/
def encodeRange (stackLength : ℕ) (r : RangeNode) : Option (List UInt8) := do
  let commonBytes := ropUtilValueToGc r.low
  if r.high = r.low then
    idsetEncodingPushCommand (6 - stackLength) (commonBytes.drop stackLength)
  else
    let commonBytes1 := ropUtilValueToGc r.high
    let i := stackLength +
      commonLength (commonBytes.drop stackLength) (commonBytes1.drop stackLength)
    let push ← if stackLength ≠ i then
      idsetEncodingPushCommand (i - stackLength) (commonBytes.drop stackLength) else some []
    let range ← idsetEncodeRangeCommand (6 - i) (commonBytes.drop i) (commonBytes1.drop i)
    return push ++ range ++ if stackLength ≠ i then idsetEncodingPopCommand else []

def encodeRanges (stackLength : ℕ) : List RangeNode → Option (List UInt8)
  | [] => some []
  | r :: rs => do return (← encodeRange stackLength r) ++ (← encodeRanges stackLength rs)

/-- The length of the prefix pushed for the whole list. -/
def stackLengthOf (low high : ℕ) : ℕ :=
  commonLength (ropUtilValueToGc low) (ropUtilValueToGc high)

/-- The list has a node: `idset_serialize_replid` passes over the empty ones. -/
def idsetEncodingGlobset : List RangeNode → Option (List UInt8)
  | [] => none
  | [r] =>
    if r.high = r.low then
      return (← idsetEncodingPushCommand 6 (ropUtilValueToGc r.low)) ++ idsetEncodeEndCommand
    else
      return (← idsetEncodeRangeCommand 6 (ropUtilValueToGc r.low) (ropUtilValueToGc r.high)) ++
        idsetEncodeEndCommand
  | r :: rs => do
    let stackLength := stackLengthOf r.low ((r :: rs).getLast (by simp)).high
    let push ← if stackLength ≠ 0 then
      idsetEncodingPushCommand stackLength (ropUtilValueToGc r.low) else some []
    let body ← encodeRanges stackLength (r :: rs)
    return push ++ body ++ (if stackLength ≠ 0 then idsetEncodingPopCommand else []) ++
      idsetEncodeEndCommand

def serializeNodes : List ReplidNode → Option (List UInt8)
  | [] => some []
  | n :: ns =>
    if n.rangeList = [] then serializeNodes ns
    else do
      return le 2 n.replid ++ (← idsetEncodingGlobset n.rangeList) ++ (← serializeNodes ns)

def idsetSerializeReplid (pset : Idset) : Option (List UInt8) :=
  if pset.bSerialize = false then none else serializeNodes pset.replList

/-- The ranges of a bitmask command. -/
def bitmaskRanges (lowValue : ℕ) (bitmask : UInt8) : List RangeNode :=
  let close (s : List RangeNode × Option RangeNode) := s.1 ++ s.2.toList
  close ((List.range 8).foldl (fun s i =>
    if bitmask.toNat.testBit i then
      match s.2 with
      | none => (s.1, some ⟨lowValue + i + 1, lowValue + i + 1⟩)
      | some r => (s.1, some ⟨r.low, r.high + 1⟩)
    else (close s, none)) ([], some ⟨lowValue, lowValue⟩))

/-- The loop of `idset_decoding_globset`: the bytes left, their offset, the stack with its top
first, and the ranges decoded so far. It returns the offset after the end command, `0` on an
error. Every turn takes a byte, so the length of the bytes is fuel enough. -/
def decodingLoop : ℕ → List UInt8 → ℕ → List (List UInt8) → List RangeNode →
    Option (ℕ × List RangeNode)
  | _, [], _, _, globset => some (0, globset)
  | 0, _ :: _, _, _, _ => none
  | fuel + 1, command :: bytes, offset, stack, globset =>
    let commonBytes := stack.reverse.flatten
    if command = 0 then some (offset + 1, globset)
    else if command ≤ 6 then
      let length := command.toNat
      if bytes.length < length then none
      else
        let pushed := commonBytes ++ bytes.take length
        if pushed.length = 6 then
          let value := ropUtilGcToValue pushed
          -- a full value leaves the stack without a pop command
          decodingLoop fuel (bytes.drop length) (offset + 1 + length) stack
            (globset ++ [⟨value, value⟩])
        else if 6 < pushed.length then some (0, globset)
        else
          decodingLoop fuel (bytes.drop length) (offset + 1 + length)
            (bytes.take length :: stack) globset
    else if command = 0x42 then
      match bytes with
      | startValue :: bitmask :: bytes =>
        if commonBytes.length ≠ 5 then some (0, globset)
        else
          decodingLoop fuel bytes (offset + 3) stack
            (globset ++ bitmaskRanges (ropUtilGcToValue (commonBytes ++ [startValue])) bitmask)
      | _ => none
    else if command = 0x50 then decodingLoop fuel bytes (offset + 1) stack.tail globset
    else if command = 0x52 then
      if 5 < commonBytes.length then some (0, globset)
      else
        let length := 6 - commonBytes.length
        if bytes.length < 2 * length then none
        else
          decodingLoop fuel (bytes.drop (2 * length)) (offset + 1 + 2 * length) stack
            (globset ++ [⟨ropUtilGcToValue (commonBytes ++ bytes.take length),
              ropUtilGcToValue (commonBytes ++ (bytes.drop length).take length)⟩])
    else decodingLoop fuel bytes (offset + 1) stack globset

def idsetDecodingGlobset (bytes : List UInt8) : Option (ℕ × List RangeNode) :=
  decodingLoop bytes.length bytes 0 [] []

/-- The loop of `idset_deserialize`: its result, the offset where it stopped and the nodes. -/
def deserializeLoop : ℕ → List UInt8 → ℕ → List ReplidNode → Option (Bool × ℕ × List ReplidNode)
  | _, [], offset, nodes => some (true, offset, nodes)
  | fuel + 1, b0 :: b1 :: bytes, offset, nodes =>
    if bytes = [] then some (false, offset + 2, nodes)
    else do
      let (length, rangeList) ← idsetDecodingGlobset bytes
      let nodes := nodes ++ [⟨ofLE [b0, b1], rangeList⟩]
      if length = 0 then some (false, offset + 2, nodes)
      else deserializeLoop fuel (bytes.drop length) (offset + 2 + length) nodes
  | _, _, _, _ => none

/-- `idset_deserialize` into a set of replica numbers, with the offset where it stopped. -/
def idsetDeserialize (pset : Idset) (pbin : List UInt8) : Option (Bool × ℕ × Idset) :=
  if pset.bSerialize = true then some (false, 0, pset)
  else do
    let (ok, offset, nodes) ← deserializeLoop pbin.length pbin 0 pset.replList
    return (ok, offset, { pset with replList := nodes })

end SteepSystem.Idsets.Globset
