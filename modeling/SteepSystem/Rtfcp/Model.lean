import SteepSystem.Lib.Bytes

/-!
Compressed RTF (`LIBRARY/mapi_lib/rtfcp.c`): a compressor and a decompressor that each keep a
ring of 4096 bytes with the same first content.

The positions of the decompressor have 32 bits. That of the input can wrap round only where the
input is already left behind, and the next byte of the output goes to the index that the number
of bytes so far leaves; the output is the list of all bytes in the order of their writing.

A buffer that is read is the function from an index to the byte found there. So is a ring; the
bytes that it holds before they are written come as an argument. The compressor's buffer is the
list of the bytes pushed so far, and `char` is signed.
-/

namespace SteepSystem.Rtfcp.Model

open SteepSystem.Lib.Bytes

def RTF_COMPRESSED : ℕ := 0x75465a4c
def RTF_UNCOMPRESSED : ℕ := 0x414c454d
def RTF_INITLENGTH : ℕ := 207
def RTF_DICTLENGTH : ℕ := 0x1000
def RTF_HEADERLENGTH : ℕ := 0x10

def RTF_INITDICT : List UInt8 :=
  ("\x7b\\rtf1\\ansi\\mac\\deff0\\deftab720\x7b\\fonttbl;\x7d" ++
    "\x7b\\f0\\fnil \\froman \\fswiss \\fmodern \\fscrip" ++
    "t \\fdecor MS Sans SerifSymbolArialTimes Ne" ++
    "w RomanCourier\x7b\\colortbl\\red0\\green0\\blue0" ++
    "\r\n\\par \\pard\\plain\\f0\\fs20\\b\\i\\u\\tab" ++
    "\\tx").toList.map fun c => UInt8.ofNat c.toNat

/-- The ring after the initial content is copied over whatever it held. -/
def initDict (stack : ℕ → UInt8) (i : ℕ) : UInt8 :=
  if i < RTF_INITLENGTH then RTF_INITDICT.getD i 0 else stack i

def setEntry (dict : ℕ → UInt8) (i : ℕ) (c : UInt8) : ℕ → UInt8 :=
  fun j => if j = i then c else dict j

def crcTable : List ℕ := [
    0x00000000, 0x77073096, 0xee0e612c, 0x990951ba, 0x076dc419, 0x706af48f,
    0xe963a535, 0x9e6495a3, 0x0edb8832, 0x79dcb8a4, 0xe0d5e91e, 0x97d2d988,
    0x09b64c2b, 0x7eb17cbd, 0xe7b82d07, 0x90bf1d91, 0x1db71064, 0x6ab020f2,
    0xf3b97148, 0x84be41de, 0x1adad47d, 0x6ddde4eb, 0xf4d4b551, 0x83d385c7,
    0x136c9856, 0x646ba8c0, 0xfd62f97a, 0x8a65c9ec, 0x14015c4f, 0x63066cd9,
    0xfa0f3d63, 0x8d080df5, 0x3b6e20c8, 0x4c69105e, 0xd56041e4, 0xa2677172,
    0x3c03e4d1, 0x4b04d447, 0xd20d85fd, 0xa50ab56b, 0x35b5a8fa, 0x42b2986c,
    0xdbbbc9d6, 0xacbcf940, 0x32d86ce3, 0x45df5c75, 0xdcd60dcf, 0xabd13d59,
    0x26d930ac, 0x51de003a, 0xc8d75180, 0xbfd06116, 0x21b4f4b5, 0x56b3c423,
    0xcfba9599, 0xb8bda50f, 0x2802b89e, 0x5f058808, 0xc60cd9b2, 0xb10be924,
    0x2f6f7c87, 0x58684c11, 0xc1611dab, 0xb6662d3d, 0x76dc4190, 0x01db7106,
    0x98d220bc, 0xefd5102a, 0x71b18589, 0x06b6b51f, 0x9fbfe4a5, 0xe8b8d433,
    0x7807c9a2, 0x0f00f934, 0x9609a88e, 0xe10e9818, 0x7f6a0dbb, 0x086d3d2d,
    0x91646c97, 0xe6635c01, 0x6b6b51f4, 0x1c6c6162, 0x856530d8, 0xf262004e,
    0x6c0695ed, 0x1b01a57b, 0x8208f4c1, 0xf50fc457, 0x65b0d9c6, 0x12b7e950,
    0x8bbeb8ea, 0xfcb9887c, 0x62dd1ddf, 0x15da2d49, 0x8cd37cf3, 0xfbd44c65,
    0x4db26158, 0x3ab551ce, 0xa3bc0074, 0xd4bb30e2, 0x4adfa541, 0x3dd895d7,
    0xa4d1c46d, 0xd3d6f4fb, 0x4369e96a, 0x346ed9fc, 0xad678846, 0xda60b8d0,
    0x44042d73, 0x33031de5, 0xaa0a4c5f, 0xdd0d7cc9, 0x5005713c, 0x270241aa,
    0xbe0b1010, 0xc90c2086, 0x5768b525, 0x206f85b3, 0xb966d409, 0xce61e49f,
    0x5edef90e, 0x29d9c998, 0xb0d09822, 0xc7d7a8b4, 0x59b33d17, 0x2eb40d81,
    0xb7bd5c3b, 0xc0ba6cad, 0xedb88320, 0x9abfb3b6, 0x03b6e20c, 0x74b1d29a,
    0xead54739, 0x9dd277af, 0x04db2615, 0x73dc1683, 0xe3630b12, 0x94643b84,
    0x0d6d6a3e, 0x7a6a5aa8, 0xe40ecf0b, 0x9309ff9d, 0x0a00ae27, 0x7d079eb1,
    0xf00f9344, 0x8708a3d2, 0x1e01f268, 0x6906c2fe, 0xf762575d, 0x806567cb,
    0x196c3671, 0x6e6b06e7, 0xfed41b76, 0x89d32be0, 0x10da7a5a, 0x67dd4acc,
    0xf9b9df6f, 0x8ebeeff9, 0x17b7be43, 0x60b08ed5, 0xd6d6a3e8, 0xa1d1937e,
    0x38d8c2c4, 0x4fdff252, 0xd1bb67f1, 0xa6bc5767, 0x3fb506dd, 0x48b2364b,
    0xd80d2bda, 0xaf0a1b4c, 0x36034af6, 0x41047a60, 0xdf60efc3, 0xa867df55,
    0x316e8eef, 0x4669be79, 0xcb61b38c, 0xbc66831a, 0x256fd2a0, 0x5268e236,
    0xcc0c7795, 0xbb0b4703, 0x220216b9, 0x5505262f, 0xc5ba3bbe, 0xb2bd0b28,
    0x2bb45a92, 0x5cb36a04, 0xc2d7ffa7, 0xb5d0cf31, 0x2cd99e8b, 0x5bdeae1d,
    0x9b64c2b0, 0xec63f226, 0x756aa39c, 0x026d930a, 0x9c0906a9, 0xeb0e363f,
    0x72076785, 0x05005713, 0x95bf4a82, 0xe2b87a14, 0x7bb12bae, 0x0cb61b38,
    0x92d28e9b, 0xe5d5be0d, 0x7cdcefb7, 0x0bdbdf21, 0x86d3d2d4, 0xf1d4e242,
    0x68ddb3f8, 0x1fda836e, 0x81be16cd, 0xf6b9265b, 0x6fb077e1, 0x18b74777,
    0x88085ae6, 0xff0f6a70, 0x66063bca, 0x11010b5c, 0x8f659eff, 0xf862ae69,
    0x616bffd3, 0x166ccf45, 0xa00ae278, 0xd70dd2ee, 0x4e048354, 0x3903b3c2,
    0xa7672661, 0xd06016f7, 0x4969474d, 0x3e6e77db, 0xaed16a4a, 0xd9d65adc,
    0x40df0b66, 0x37d83bf0, 0xa9bcae53, 0xdebb9ec5, 0x47b2cf7f, 0x30b5ffe9,
    0xbdbdf21c, 0xcabac28a, 0x53b39330, 0x24b4a3a6, 0xbad03605, 0xcdd70693,
    0x54de5729, 0x23d967bf, 0xb3667a2e, 0xc4614ab8, 0x5d681b02, 0x2a6f2b94,
    0xb40bbe37, 0xc30c8ea1, 0x5a05df1b, 0x2d02ef8d]

def rtfcpCrc (bytes : List UInt8) : ℕ :=
  bytes.foldl (fun crc b => crcTable.getD ((crc ^^^ b.toNat) &&& 0xFF) 0 ^^^ (crc >>> 8)) 0

section Uncompress

variable (pb : ℕ → UInt8) (inSize : ℕ)

structure DecompressionState where
  dict : ℕ → UInt8
  dictWriteoffset : ℕ
  inPos : ℕ
  outSize : ℕ
  output : List UInt8

/-- How a run of the inner loop ends: the function returns, with `*plength` set or not, or the
loop is through with its control byte. -/
inductive Outcome
  | ret (ok : Bool) (output : List UInt8) (plength : Option ℕ)
  | more (state : DecompressionState)

def rtfcpGetNextByte (state : DecompressionState) : UInt8 × DecompressionState :=
  if state.inPos > inSize then (0, state)
  else (pb state.inPos, { state with inPos := state.inPos + 1 })

def rtfcpAppendToDictionary (state : DecompressionState) (c : UInt8) : DecompressionState :=
  { state with
    dict := setEntry state.dict state.dictWriteoffset c
    dictWriteoffset := (state.dictWriteoffset + 1) % RTF_DICTLENGTH }

def rtfcpAppendToOutput (state : DecompressionState) (c : UInt8) : DecompressionState :=
  { state with output := state.output ++ [c] }

/-- The length and the offset of the next reference. -/
def rtfcpGetNextDictionaryReference (state : DecompressionState) :
    (ℕ × ℕ) × DecompressionState :=
  let (highbyte, state) := rtfcpGetNextByte pb inSize state
  let (lowbyte, state) := rtfcpGetNextByte pb inSize state
  (((lowbyte &&& 0x0F).toNat + 2,
    (((highbyte.toNat <<< 8) + lowbyte.toNat) &&& 0xFFF0) >>> 4), state)

/-- The loop over a reference from its byte `i` on, `none` at an output overflow. -/
def copyReference (offset : ℕ) : ℕ → ℕ → DecompressionState → Option DecompressionState
  | 0, _, state => some state
  | n + 1, i, state =>
    if state.output.length % 2 ^ 32 > state.outSize then none
    else
      let c := state.dict ((offset + i) % RTF_DICTLENGTH)
      copyReference offset n (i + 1) (rtfcpAppendToDictionary (rtfcpAppendToOutput state c) c)

/-- The inner loop from `bitmaskPos` on, with `n` turns left. -/
def controlLoop (control : UInt8) : ℕ → ℕ → DecompressionState → Outcome
  | 0, _, state => .more state
  | n + 1, bitmaskPos, state =>
    if control.toNat &&& (1 <<< bitmaskPos) ≠ 0 then
      let ((length, offset), state) := rtfcpGetNextDictionaryReference pb inSize state
      if offset = state.dictWriteoffset then
        .ret true state.output (some (state.output.length % 2 ^ 32))
      else
        match copyReference offset length 0 state with
        | none => .ret false state.output none
        | some state => controlLoop control n (bitmaskPos + 1) state
    else
      if state.output.length % 2 ^ 32 > state.outSize then .ret false state.output none
      else
        let (c, state) := rtfcpGetNextByte pb inSize state
        if state.inPos > inSize then .ret false state.output none
        else
          controlLoop control n (bitmaskPos + 1)
            (rtfcpAppendToDictionary (rtfcpAppendToOutput state c) c)

/-- The outer loop; every turn reads a control byte, so the size of the input is fuel enough. -/
def uncompressLoop : ℕ → DecompressionState → Bool × List UInt8 × Option ℕ
  | 0, state => (true, state.output, none)
  | fuel + 1, state =>
    if (state.inPos + 1) % 2 ^ 32 < inSize then
      let (control, state) := rtfcpGetNextByte pb inSize state
      match controlLoop pb inSize control 8 0 state with
      | .ret ok output plength => (ok, output, plength)
      | .more state => uncompressLoop fuel state
    else (true, state.output, none)

def ival (pos : ℕ) : ℕ := ofLE [pb pos, pb (pos + 1), pb (pos + 2), pb (pos + 3)]

/-- The result, what was written to the output, and `*plength` afterwards. -/
def rtfcpUncompress (stack : ℕ → UInt8) (plength : ℕ) : Bool × List UInt8 × ℕ :=
  if inSize < 4 * 4 then (false, [], plength)
  else if ival pb 0 ≠ inSize - 4 then (false, [], plength)
  else if ival pb 8 ≠ RTF_COMPRESSED ∧ ival pb 8 ≠ RTF_UNCOMPRESSED then (false, [], plength)
  else if ival pb 8 = RTF_UNCOMPRESSED then
    if plength < inSize - 4 * 4 then (false, [], plength)
    else (true, (List.range (inSize - 4 * 4)).map fun i => pb (4 * 4 + i), plength)
  else
    let (ok, output, set) := uncompressLoop pb inSize inSize
      ⟨initDict stack, RTF_INITLENGTH, RTF_HEADERLENGTH,
        (ival pb 4 + RTF_HEADERLENGTH + 4) % 2 ^ 32, []⟩
    (ok, output, set.getD plength)

end Uncompress

section Compress

variable (prtfBuff : ℕ → UInt8) (rtfSize : ℕ)

/-- The variables of `rtfcp_longest_match` that outlive a turn of its loop. -/
structure Match where
  pdict : ℕ → UInt8
  writeIdx : ℕ
  matchOffset : ℕ
  bestMatchLength : ℕ

/-- The inner loop at dictionary index `i`, 17 turns at most. A longer match than the best one
so far is written to the ring at once. -/
def matchLoop (inputIdx i : ℕ) : ℕ → ℕ → Match → Match
  | 0, _, m => m
  | n + 1, matchLength1, m =>
    let b := prtfBuff (inputIdx + matchLength1)
    -- a byte from 0x80 on is negative as a `char` and equals no `uint8_t`
    if (b.toNat < 0x80 ∧ b = m.pdict (i + matchLength1)) ∧
        i + matchLength1 < m.writeIdx % RTF_DICTLENGTH ∧
        inputIdx + matchLength1 < rtfSize ∧ matchLength1 < 17 then
      let matchLength1 := matchLength1 + 1
      matchLoop inputIdx i n matchLength1
        (if matchLength1 > m.bestMatchLength then
          ⟨setEntry m.pdict (m.writeIdx % RTF_DICTLENGTH) (prtfBuff (inputIdx + matchLength1 - 1)),
            m.writeIdx + 1, i, matchLength1⟩
        else m)
    else m

def rtfcpLongestMatch (inputIdx : ℕ) (pdict : ℕ → UInt8) (writeIdx : ℕ) : Match :=
  (List.range (min writeIdx RTF_DICTLENGTH)).foldl
    (fun m i => matchLoop prtfBuff rtfSize inputIdx i 17 0 m) ⟨pdict, writeIdx, 0, 0⟩

structure CompressState where
  data : List UInt8
  controlByteIdx : ℕ
  controlBit : ℕ
  dict : ℕ → UInt8
  dictWriteIdx : ℕ

/-- Both bytes of a reference, the higher one first. -/
def pushReference (dictRef : ℕ) : List UInt8 :=
  [UInt8.ofNat ((dictRef &&& 0xFF00) >>> 8), UInt8.ofNat (dictRef &&& 0xFF)]

def CompressState.setControl (s : CompressState) : List UInt8 :=
  s.data.modify s.controlByteIdx fun c => c ||| UInt8.ofNat s.controlBit

/-- The next control bit; after the eighth the next control byte. -/
def CompressState.next (s : CompressState) : CompressState :=
  if s.controlBit = 0x80 then
    { s with controlBit := 0x01, controlByteIdx := s.data.length, data := s.data ++ [0] }
  else { s with controlBit := s.controlBit <<< 1 }

/-- One turn of the loop of `rtfcp_compress`: what it takes of the input and the state after. -/
def compressStep (inputIdx : ℕ) (s : CompressState) : ℕ × CompressState :=
  let m := rtfcpLongestMatch prtfBuff rtfSize inputIdx s.dict s.dictWriteIdx
  if m.bestMatchLength > 1 then
    let dictRef := (m.matchOffset <<< 4 + (m.bestMatchLength - 2)) % 65536
    (m.bestMatchLength, CompressState.next { s with
      data := s.setControl ++ pushReference dictRef
      dict := m.pdict
      dictWriteIdx := m.writeIdx })
  else
    let b := prtfBuff inputIdx
    (1, CompressState.next { s with
      data := s.data ++ [b]
      dict := if m.bestMatchLength = 0 then setEntry m.pdict (m.writeIdx % RTF_DICTLENGTH) b
        else m.pdict
      dictWriteIdx := if m.bestMatchLength = 0 then m.writeIdx + 1 else m.writeIdx })

/-- The loop; every turn takes a byte, so the length of the input is fuel enough. -/
def compressLoop : ℕ → ℕ → CompressState → CompressState
  | 0, _, s => s
  | fuel + 1, inputIdx, s =>
    if inputIdx < rtfSize then
      let (n, s) := compressStep prtfBuff rtfSize inputIdx s
      compressLoop fuel (inputIdx + n) s
    else s

def CompressState.init (stack : ℕ → UInt8) : CompressState :=
  ⟨List.replicate (4 * 4) 0 ++ [0], 4 * 4, 0x01, initDict stack, RTF_INITLENGTH⟩

/-- The compressed stream, with room before it for the header. -/
def compressBody (stack : ℕ → UInt8) : List UInt8 :=
  let s := compressLoop prtfBuff rtfSize rtfSize 0 (.init stack)
  s.setControl ++ pushReference ((s.dictWriteIdx % RTF_DICTLENGTH) <<< 4)

def rtfcpCompress (stack : ℕ → UInt8) : List UInt8 :=
  let data := compressBody prtfBuff rtfSize stack
  le 4 (data.length - 4) ++ le 4 rtfSize ++ le 4 RTF_COMPRESSED ++
    le 4 (rtfcpCrc (data.drop (4 * 4))) ++ data.drop (4 * 4)

end Compress

end SteepSystem.Rtfcp.Model
