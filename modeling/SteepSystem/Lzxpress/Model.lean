import SteepSystem.Lib.Bytes

/-!
The LZXPRESS codec of RPC payloads (`LIBRARY/mapi_lib/lzxpress.c`).

A buffer that is read is the function from an index to the byte found there, past its end too.
The buffer that the compressor writes is the list of the bytes before `compressed_pos`; the
word for the indicator bits that it leaves room for is zero until it is filled in.
-/

namespace SteepSystem.Lzxpress.Model

open SteepSystem.Lib.Bytes

def WINDOWS_SIZE : ℕ := 0x20
def CLASSIC_MATCH_LENGTH : ℕ := 9
def MIDDLE_MATCH_LENGTH : ℕ := 24
def MAX_MATCH_LENGTH : ℕ := 279

section Compress

variable (uncompressed : ℕ → UInt8) (uncompressedSize : ℕ)

/-- The `for` loop that measures a match; `MAX_MATCH_LENGTH` turns at most. -/
def matchLength (codingPos offset : ℕ) : ℕ → ℕ → ℕ
  | 0, length => length
  | fuel + 1, length =>
    if uncompressed (codingPos + length) = uncompressed (offset + length) ∧
        offset + length < codingPos ∧ length < MAX_MATCH_LENGTH ∧
        length < uncompressedSize - codingPos - 1 then
      matchLength codingPos offset fuel (length + 1)
    else length

/-- The loop over the window: the first match of three bytes or more, its distance and length. -/
def findMatch (codingPos : ℕ) : ℕ → ℕ → Option (ℕ × ℕ)
  | 0, _ => none
  | fuel + 1, offset =>
    if offset < codingPos then
      let length := matchLength uncompressed uncompressedSize codingPos offset MAX_MATCH_LENGTH 0
      if length < 3 then findMatch codingPos fuel (offset + 1)
      else some (codingPos - offset, length)
    else none

/-- Where the window begins; the first byte is never part of a match. -/
def windowStart (codingPos : ℕ) : ℕ :=
  let offset := codingPos - min WINDOWS_SIZE codingPos
  if offset = 0 then offset + 1 else offset

/-- What the compressor has written and still has to fill in. -/
structure Encoder where
  compressed : List UInt8
  ptrIndic : ℕ
  indic : ℕ
  indicBit : ℕ
  nibbleIndex : ℕ

def Encoder.init : Encoder := ⟨[0, 0, 0, 0], 0, 0, 0, 0⟩

/-- `SIVAL` into the buffer. -/
def sival (buf : List UInt8) (pos value : ℕ) : List UInt8 :=
  buf.take pos ++ le 4 value ++ buf.drop (pos + 4)

def Encoder.putLiteral (e : Encoder) (b : UInt8) : Encoder :=
  { e with compressed := e.compressed ++ [b] }

/-- The upper half of the byte that is shared by two lengths. -/
def Encoder.setNibble (e : Encoder) (v : ℕ) : List UInt8 :=
  e.compressed.modify e.nibbleIndex fun c => (c &&& 0xF) ||| UInt8.ofNat (v * 16)

/-- The bytes that follow the metadata word of a long match, and the buffer before it. -/
def Encoder.putLength (e : Encoder) (length : ℕ) : List UInt8 × List UInt8 :=
  if length ≤ MIDDLE_MATCH_LENGTH then
    if e.nibbleIndex = 0 then (e.compressed, [UInt8.ofNat ((length - (3 + 7)) &&& 0xF)])
    else (e.setNibble (length - (3 + 7)), [])
  else if length ≤ MAX_MATCH_LENGTH then
    if e.nibbleIndex = 0 then (e.compressed, [15, UInt8.ofNat (length - (3 + 7 + 15))])
    else (e.setNibble 15, [UInt8.ofNat (length - (3 + 7 + 15))])
  else
    if e.nibbleIndex = 0 then (e.compressed, 15 :: 255 :: le 2 (length - 3))
    else (e.compressed.modify e.nibbleIndex fun c => c ||| UInt8.ofNat (15 <<< 4), 255 :: le 2 (length - 3))

def Encoder.putMatch (e : Encoder) (matchOffset length : ℕ) : Encoder :=
  let indic := e.indic ||| 1 <<< (32 - (e.indicBit % 32 + 1))
  if length ≤ CLASSIC_MATCH_LENGTH then
    let metadata := (matchOffset - 1) <<< 3 ||| (length - 3)
    { e with compressed := e.compressed ++ le 2 metadata, indic := indic }
  else
    let metadata := (matchOffset - 1) <<< 3 ||| 7
    let (before, after) := e.putLength length
    { e with
      compressed := before ++ le 2 metadata ++ after
      indic := indic
      nibbleIndex := if e.nibbleIndex = 0 then e.compressed.length + 2 else 0 }

/-- Count a token; a word of indicator bits that is full is written and room left for the next. -/
def Encoder.tick (e : Encoder) : Encoder :=
  let indicBit := e.indicBit + 1
  if (indicBit - 1) % 32 > indicBit % 32 then
    { e with
      compressed := sival e.compressed e.ptrIndic e.indic ++ [0, 0, 0, 0]
      ptrIndic := e.compressed.length
      indic := 0
      indicBit := indicBit }
  else { e with indicBit := indicBit }

/-- The main loop; `fuel` turns at most, and every turn takes a byte. -/
def compressLoop : ℕ → ℕ → ℕ → Encoder → ℕ × Encoder
  | 0, codingPos, _, e => (codingPos, e)
  | fuel + 1, codingPos, byteLeft, e =>
    let (e, length) :=
      match findMatch uncompressed uncompressedSize codingPos WINDOWS_SIZE
          (windowStart codingPos) with
      | some (matchOffset, length) => (e.putMatch matchOffset length, length)
      | none => (e.putLiteral (uncompressed codingPos), 1)
    let e := e.tick
    if byteLeft - length > 3 then compressLoop fuel (codingPos + length) (byteLeft - length) e
    else (codingPos + length, e)

/-- The second loop, which writes the bytes left as they are, one at least. -/
def tailLoop : ℕ → ℕ → Encoder → Encoder
  | 0, _, e => e
  | fuel + 1, codingPos, e =>
    let e := (e.putLiteral (uncompressed codingPos)).tick
    if codingPos + 1 < uncompressedSize then tailLoop fuel (codingPos + 1) e else e

def lzxpressCompress : List UInt8 :=
  if uncompressedSize = 0 then []
  else
    let (codingPos, e) := compressLoop uncompressed uncompressedSize uncompressedSize 0
      uncompressedSize .init
    let e := tailLoop uncompressed uncompressedSize uncompressedSize codingPos e
    sival e.compressed e.ptrIndic (e.indic ||| 1 <<< (32 - (e.indicBit % 32 + 1)))

end Compress

section Decompress

variable (input : ℕ → UInt8) (inputSize maxOutputSize : ℕ)

def sval (pos : ℕ) : ℕ := ofLE [input pos, input (pos + 1)]

def ival (pos : ℕ) : ℕ := ofLE [input pos, input (pos + 1), input (pos + 2), input (pos + 3)]

structure Decoder where
  inputIndex : ℕ
  output : List UInt8
  nibbleIndex : ℕ
  indicator : ℕ
  indicatorBit : ℕ

def Decoder.init : Decoder := ⟨0, [], 0, 0, 0⟩

/-- Read the next word of indicator bits when all of the last one are used. -/
def Decoder.fetch (d : Decoder) : Decoder :=
  if d.indicatorBit = 0 then
    { d with
      indicator := ival input d.inputIndex, inputIndex := d.inputIndex + 4, indicatorBit := 32 }
  else d

/-- The length of a match after its metadata word, with the indices that the reading leaves. -/
def readLength (inputIndex nibbleIndex length : ℕ) : ℕ × ℕ × ℕ :=
  if length ≠ 7 then (length + 3, inputIndex, nibbleIndex)
  else
    let (length, inputIndex, nibbleIndex) :=
      if nibbleIndex = 0 then ((input inputIndex).toNat % 16, inputIndex + 1, inputIndex)
      else ((input nibbleIndex).toNat / 16, inputIndex, 0)
    if length ≠ 15 then (length + 7 + 3, inputIndex, nibbleIndex)
    else
      let length := (input inputIndex).toNat
      let inputIndex := inputIndex + 1
      if length ≠ 255 then (length + 15 + 7 + 3, inputIndex, nibbleIndex)
      else
        -- the two subtractions and additions are of 32 bits
        ((sval input inputIndex + (2 ^ 32 - (15 + 7)) + 15 + 7 + 3) % 2 ^ 32, inputIndex + 2,
          nibbleIndex)

/-- The loop that copies a match; it ends early at a full buffer or a distance too far. -/
def copyLoop (offset : ℕ) : ℕ → List UInt8 → List UInt8
  | 0, output => output
  | length + 1, output =>
    if output.length ≥ maxOutputSize ∨ offset + 1 > output.length then output
    else copyLoop offset length (output ++ [output.getD (output.length - offset - 1) 0])

/-- One turn of the loop of `lzxpress_decompress`. -/
def Decoder.step (d : Decoder) : Decoder :=
  let d := d.fetch input
  let indicatorBit := d.indicatorBit - 1
  if (d.indicator >>> indicatorBit) &&& 1 = 0 then
    { d with
      output := d.output ++ [input d.inputIndex]
      inputIndex := d.inputIndex + 1
      indicatorBit := indicatorBit }
  else
    let metadata := sval input d.inputIndex
    let (length, inputIndex, nibbleIndex) :=
      readLength input (d.inputIndex + 2) d.nibbleIndex (metadata % 8)
    { d with
      output := copyLoop maxOutputSize (metadata / 8) length d.output
      inputIndex := inputIndex
      nibbleIndex := nibbleIndex
      indicatorBit := indicatorBit }

lemma le_readLength (inputIndex nibbleIndex length : ℕ) :
    inputIndex ≤ (readLength input inputIndex nibbleIndex length).2.1 := by
  rw [readLength]
  split_ifs with h1 h2
  · exact le_rfl
  · dsimp only
    split_ifs <;> simp only <;> omega
  · dsimp only
    split_ifs <;> simp only <;> omega

lemma Decoder.lt_step (d : Decoder) : d.inputIndex < (d.step input maxOutputSize).inputIndex := by
  have hf : d.inputIndex ≤ (d.fetch input).inputIndex := by
    rw [fetch]
    split_ifs <;> simp
  have hr := le_readLength input ((d.fetch input).inputIndex + 2) (d.fetch input).nibbleIndex
    (sval input (d.fetch input).inputIndex % 8)
  rw [step]
  dsimp only
  split_ifs
  · exact Nat.lt_succ_of_le hf
  · exact lt_of_le_of_lt hf (lt_of_lt_of_le (by omega) hr)

/-- The loop of `lzxpress_decompress`. Every turn reads on in the input. -/
def decompressLoop (d : Decoder) : List UInt8 :=
  if (d.step input maxOutputSize).output.length < maxOutputSize ∧
      (d.step input maxOutputSize).inputIndex < inputSize then
    decompressLoop (d.step input maxOutputSize)
  else (d.step input maxOutputSize).output
termination_by inputSize - d.inputIndex
decreasing_by
  have := d.lt_step input maxOutputSize
  omega

/-- The output; its length is what the function returns. -/
def lzxpressDecompress : List UInt8 := decompressLoop input inputSize maxOutputSize .init

end Decompress

end SteepSystem.Lzxpress.Model
