import SteepSystem.Lzxpress.Accesses

/-!
The request buffer of a call of `EcDoRpcExt2` (`rop_processor/rop_ext.c`): a header of eight
bytes, and behind it, compressed or obfuscated or as they are, the requests and the handles.

The received bytes and what lies behind them are the function from an index to the byte found
there. The requests are read by a function of their own, which is a parameter here: from the
staged bytes and an offset it gives a request and the offset behind it, or an error.
-/

namespace SteepSystem.RopBuffers.Model

open SteepSystem.Lib.Bytes SteepSystem.Lzxpress.Model

def RHE_FLAG_COMPRESSED : ℕ := 0x0001
def RHE_FLAG_XORMAGIC : ℕ := 0x0002
def RHE_FLAG_LAST : ℕ := 0x0004

/-- The size of the staging buffer. -/
def sizeofBuff : ℕ := 0x8000

structure RpcHeaderExt where
  version : ℕ
  flags : ℕ
  size : ℕ
  sizeActual : ℕ

/-- The codes that the call returns itself, and those of a request. -/
inductive Status (ε : Type)
  | bufsize | headerFlags | headerSize | alloc | lzxpress | range
  | request (e : ε)

structure RopBuffer (ρ : Type) where
  rheVersion : ℕ
  rheFlags : ℕ
  ropList : List ρ
  handles : List ℕ

section Staging

variable (data : ℕ → UInt8) (dataSize : ℕ)

def extBufferPullRpcHeaderExt : Option RpcHeaderExt :=
  if dataSize < 8 then none else some ⟨sval data 0, sval data 2, sval data 4, sval data 6⟩

/-- `common_util_obfuscate_data` on `size` bytes behind the header. -/
def obfuscateData (size : ℕ) (i : ℕ) : UInt8 :=
  if 8 ≤ i ∧ i < 8 + size then data i ^^^ 0xA5 else data i

/-- The bytes behind the header, as the copy or the decompression finds them. -/
def payload (h : RpcHeaderExt) (i : ℕ) : UInt8 :=
  if h.flags &&& RHE_FLAG_XORMAGIC ≠ 0 then obfuscateData data h.sizeActual (8 + i)
  else data (8 + i)

/-- What the staging buffer, which held `heap`, holds afterwards; nothing if the decompressed
form is too short. -/
def stage (heap : ℕ → UInt8) (h : RpcHeaderExt) : Option (ℕ → UInt8) :=
  if h.flags &&& RHE_FLAG_COMPRESSED ≠ 0 then
    let output := lzxpressDecompress (payload data h) h.size sizeofBuff
    if output.length < h.sizeActual then none else some fun i => output.getD i (heap i)
  else some fun i => if i < h.sizeActual then payload data h i else heap i

/-- The indices of the received bytes that are read, and with the magic written. -/
def reads (h : RpcHeaderExt) : Set ℕ :=
  {i | h.flags &&& RHE_FLAG_XORMAGIC ≠ 0 ∧ 8 ≤ i ∧ i < 8 + h.sizeActual} ∪
    if h.flags &&& RHE_FLAG_COMPRESSED ≠ 0 then
      {i | ∃ d : Decoder, d.Reached (payload data h) h.size sizeofBuff ∧
        ∃ j ∈ d.reads (payload data h), i = 8 + j}
    else {i | 8 ≤ i ∧ i < 8 + h.sizeActual}

/-- The indices of the staging buffer that are written. -/
def writes (h : RpcHeaderExt) : Set ℕ :=
  if h.flags &&& RHE_FLAG_COMPRESSED ≠ 0 then
    {j | ∃ d : Decoder, d.Reached (payload data h) h.size sizeofBuff ∧
      (j ∈ d.writes (payload data h) ∨
        ∃ c ∈ d.copies (payload data h) sizeofBuff, j = c.2)}
  else {j | j < h.sizeActual}

end Staging

section Requests

variable {ρ ε : Type} (pullRequest : List UInt8 → ℕ → Except ε (ρ × ℕ)) (alloc : ℕ → Bool)
variable (data : List UInt8)

/-- The loop over the requests up to the offset `size`; the last allocation was number `n`. The
fuel is spent in the end if a request does not move the offset on. -/
def requestLoop (size : ℕ) : ℕ → ℕ → ℕ → List ρ → Option (Except (Status ε) (ℕ × ℕ × List ρ))
  | 0, _, _, _ => none
  | fuel + 1, n, offset, ropList =>
    if offset < size then
      if ¬ alloc (n + 1) ∨ ¬ alloc (n + 2) then some (.error .alloc)
      else
        match pullRequest data offset with
        | .error e => some (.error (.request e))
        | .ok (request, offset) =>
          requestLoop size fuel (n + 2) offset (ropList ++ [request])
    else some (.ok (n, offset, ropList))

/-- `ext_buffer_pull_uint32` -/
def pullUint32 (offset : ℕ) : Option (ℕ × ℕ) :=
  if data.length < 4 ∨ data.length < offset + 4 then none
  else some (ofLE ((data.drop offset).take 4), offset + 4)

def handleLoop : ℕ → ℕ → List ℕ → Option (List ℕ)
  | 0, _, phandles => some phandles
  | hnum + 1, offset, phandles =>
    match pullUint32 data offset with
    | none => none
    | some (handle, offset) => handleLoop hnum offset (phandles ++ [handle])

/-- `(size_actual - size) / sizeof(uint32_t)`: a difference of `int`s, divided in 64 bits and cut
to an `int`. -/
def tmpNum (sizeActual size : ℕ) : ℤ :=
  ((((sizeActual : ℤ) - size) % 2 ^ 64) / 4).bmod (2 ^ 32)

/-- The handles behind the requests; `hnum` has eight bits. -/
def pullHandles (size n offset : ℕ) : Except (Status ε) (List ℕ) :=
  let num := tmpNum data.length size
  if num = 0 then .ok []
  else if num > 255 then .error .range
  else if ¬ alloc (n + 1) then .error .alloc
  else
    match handleLoop data (num % 256).toNat offset [] with
    | none => .error .bufsize
    | some phandles => .ok phandles

/-- What follows when the staged bytes are there. -/
def pullStaged (h : RpcHeaderExt) (fuel : ℕ) : Option (Except (Status ε) (RopBuffer ρ)) :=
  if data.length < 2 then some (.error .bufsize)
  else
    let size := ofLE (data.take 2)
    match requestLoop pullRequest alloc data size fuel 0 2 [] with
    | none => none
    | some (.error e) => some (.error e)
    | some (.ok (n, offset, ropList)) =>
      match pullHandles alloc data size n offset with
      | .error e => some (.error e)
      | .ok phandles => some (.ok ⟨h.version, h.flags, ropList, phandles⟩)

end Requests

variable {ρ ε : Type}

/-- The header is taken, so that the payload is looked at. -/
def Taken (data : ℕ → UInt8) (dataSize : ℕ) (alloc : ℕ → Bool) (h : RpcHeaderExt) : Prop :=
  extBufferPullRpcHeaderExt data dataSize = some h ∧ h.flags &&& RHE_FLAG_LAST ≠ 0 ∧ h.size ≠ 0 ∧
    alloc 0

def ropExtPullRopBuffer (pullRequest : List UInt8 → ℕ → Except ε (ρ × ℕ)) (alloc : ℕ → Bool)
    (heap data : ℕ → UInt8) (dataSize fuel : ℕ) : Option (Except (Status ε) (RopBuffer ρ)) :=
  match extBufferPullRpcHeaderExt data dataSize with
  | none => some (.error .bufsize)
  | some h =>
    if h.flags &&& RHE_FLAG_LAST = 0 then some (.error .headerFlags)
    else if h.size = 0 then some (.error .headerSize)
    else if ¬ alloc 0 then some (.error .alloc)
    else
      match stage data heap h with
      | none => some (.error .lzxpress)
      | some pbuff =>
        pullStaged pullRequest alloc ((List.range h.sizeActual).map pbuff) h fuel

end SteepSystem.RopBuffers.Model
