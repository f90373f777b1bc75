import SteepSystem.Ndr.Model

/-!
`EXCHANGE_SYSTEM/http/pdu_processor/pdu_processor.c`: how the request PDUs of one connection are
parsed, authenticated and joined to calls. A call that is handed to
`pdu_processor_process_request` is an outcome; the other types of packet are not modelled. A copy
that runs over the allocated buffer has no outcome.
-/

namespace SteepSystem.PduProcessor

open SteepSystem.Ndr

/-! ### Packets -/

def pktRequest : UInt8 := 0

def pfcFlagFirst : UInt8 := 0x01

def pfcFlagLast : UInt8 := 0x02

def pfcFlagObjectUuid : UInt8 := 0x80

def drepLe : UInt8 := 0x10

def authLevelEmpty : UInt8 := 0

def authLevelNone : UInt8 := 1

def authLevelConnect : UInt8 := 2

def authLevelIntegrity : UInt8 := 5

def authLevelPrivacy : UInt8 := 6

def requestLength : ℕ := 24

def authTrailerLength : UInt32 := 8

def maxFragmentedCalls : ℕ := 100

structure Request where
  allocHint : UInt32
  contextId : UInt16
  opnum : UInt16
  object : Option Guid
  pad : List UInt8
  stubAndVerifier : List UInt8

structure NcacnPacket where
  rpcVers : UInt8
  rpcVersMinor : UInt8
  pktType : UInt8
  pfcFlags : UInt8
  drep : Ndr.Bytes 4
  fragLength : UInt16
  authLength : UInt16
  callId : UInt32

def NcacnPacket.first (pkt : NcacnPacket) : Bool := pkt.pfcFlags &&& pfcFlagFirst != 0

def NcacnPacket.last (pkt : NcacnPacket) : Bool := pkt.pfcFlags &&& pfcFlagLast != 0

/-- The length of the header in front of the stub of a request. -/
def NcacnPacket.hdrSize (pkt : NcacnPacket) : ℕ :=
  if pkt.pfcFlags &&& pfcFlagObjectUuid != 0 then requestLength + 16 else requestLength

structure Auth where
  authType : UInt8
  authLevel : UInt8
  authPadLength : UInt8
  authReserved : UInt8
  authContextId : UInt32
  credentials : List UInt8

/-- `ndr_set_flags` for the pull in between. -/
def withFlags {α : Type} (f : Flags → Flags) (pull : Pull α) : Pull α := do
  let s ← get
  set { s with flags := f s.flags }
  let a ← pull
  modify fun t => { t with flags := s.flags }
  pure a

def pullDcerpcObject (objectPresent : Bool) : Pull (Option Guid) := do
  pullUnionAlign 4
  if objectPresent then
    let guid ← pullGuid
    pure (some guid)
  else pure none

def pullDcerpcRequest (objectPresent : Bool) : Pull Request := do
  pullAlign 4
  let allocHint ← pullUint32
  let contextId ← pullUint16
  let opnum ← pullUint16
  let object ← pullDcerpcObject objectPresent
  let pad ← withFlags (fun flags => { flags with align8 := true }) pullDataBlob
  let stubAndVerifier ← withFlags (fun flags => { flags with remaining := true }) pullDataBlob
  pullTrailerAlign 4
  pure { allocHint, contextId, opnum, object, pad, stubAndVerifier }

def pullDcerpcPayload (objectPresent : Bool) (pktType : UInt8) : Pull (Option Request) := do
  pullUnionAlign 4
  if pktType = pktRequest then
    let request ← pullDcerpcRequest objectPresent
    pure (some request)
  else pure none

def pullNcacnpkt (objectPresent : Bool) : Pull (NcacnPacket × Option Request) := do
  pullAlign 4
  let rpcVers ← pullUint8
  let rpcVersMinor ← pullUint8
  let pktType ← pullUint8
  let pfcFlags ← pullUint8
  let drep ← pullArrayUint8 4
  let fragLength ← pullUint16
  let authLength ← pullUint16
  let callId ← pullUint32
  let payload ← pullDcerpcPayload objectPresent pktType
  pullTrailerAlign 4
  pure ({ rpcVers, rpcVersMinor, pktType, pfcFlags, drep, fragLength, authLength, callId },
    payload)

def pullDcerpcAuth : Pull Auth := do
  pullAlign 4
  let authType ← pullUint8
  let authLevel ← pullUint8
  let authPadLength ← pullUint8
  let authReserved ← pullUint8
  let authContextId ← pullUint32
  let credentials ← withFlags (fun flags => { flags with remaining := true }) pullDataBlob
  pullTrailerAlign 4
  pure { authType, authLevel := if authLevel = 0 then authLevelConnect else authLevel,
         authPadLength, authReserved, authContextId, credentials }

/-! ### Authentication -/

/-- `ntlmssp.c` on a state of its own. The arguments are the data, the PDU without the credentials
and the credentials. -/
structure Ntlmssp (ν : Type) where
  unsealPacket : ν → List UInt8 → List UInt8 → List UInt8 → Option (List UInt8) × ν
  checkPacket : ν → List UInt8 → List UInt8 → List UInt8 → Bool × ν

structure AuthContext (ν : Type) where
  authContextId : UInt32
  authLevel : UInt8
  ntlmssp : ν

variable {ν : Type}

/-- The first context with the id, and its place in the list. -/
def findAuthContext (auths : List (AuthContext ν)) (authContextId : UInt32) :
    Option (AuthContext ν × ℕ) :=
  auths.zipIdx.find? fun c => c.1.authContextId == authContextId

/-- The trailer and its length. The length in front of it is computed in 32 bits. -/
def pullAuthTrailer (malloc : ℕ → Bool) (pkt : NcacnPacket) (trailer : List UInt8) :
    Option (Auth × ℕ) :=
  let length := UInt32.ofNat trailer.length
  let dataAndPad := length - (authTrailerLength + pkt.authLength.toUInt32)
  if length < dataAndPad then none
  else
    let flags := { bigEndian := pkt.drep.1.getD 0 0 &&& drepLe == 0 : Flags }
    match pullDcerpcAuth { flags, data := trailer, offset := dataAndPad.toNat, malloc } with
    | .error _ => none
    | .ok (auth, _) => some (auth, (length - dataAndPad).toNat)

/-- The indicated amount of padding is removed from the end of the data. -/
def removePadding (auth : Auth) (i : ℕ) (data : List UInt8) : Option (ℕ × List UInt8) :=
  if data.length < auth.authPadLength.toNat then none
  else some (i, data.take (data.length - auth.authPadLength.toNat))

/-- `blob`: the PDU. The place of the context that accepts the request and the stub without the
trailer and the padding, or nothing when the request is refused. -/
def authRequest (ntlmssp : Ntlmssp ν) (malloc : ℕ → Bool) (auths : List (AuthContext ν))
    (pkt : NcacnPacket) (stub blob : List UInt8) :
    Option (ℕ × List UInt8) × List (AuthContext ν) :=
  if pkt.authLength = 0 then
    match auths.getLast? with
    | none => (none, auths)
    | some ctx =>
      if ctx.authLevel = authLevelEmpty ∨ ctx.authLevel = authLevelConnect ∨
          ctx.authLevel = authLevelNone then
        (some (auths.length - 1, stub), auths)
      else (none, auths)
  else
    match pullAuthTrailer malloc pkt stub with
    | none => (none, auths)
    | some (auth, authLength) =>
      match findAuthContext auths auth.authContextId with
      | none => (none, auths)
      | some (ctx, i) =>
        let length := stub.length - authLength
        let whole := blob.take (blob.length - auth.credentials.length)
        if ctx.authLevel = authLevelEmpty then (some (i, stub), auths)
        else if ctx.authLevel = authLevelPrivacy then
          let sealed := (blob.drop pkt.hdrSize).take length
          match ntlmssp.unsealPacket ctx.ntlmssp sealed whole auth.credentials with
          | (none, n) => (none, auths.set i { ctx with ntlmssp := n })
          | (some data, n) =>
            (removePadding auth i (data.take length), auths.set i { ctx with ntlmssp := n })
        else if ctx.authLevel = authLevelIntegrity then
          match ntlmssp.checkPacket ctx.ntlmssp (stub.take length) whole auth.credentials with
          | (false, n) => (none, auths.set i { ctx with ntlmssp := n })
          | (true, n) =>
            (removePadding auth i (stub.take length), auths.set i { ctx with ntlmssp := n })
        else if ctx.authLevel = authLevelConnect then
          (removePadding auth i (stub.take length), auths)
        else (none, auths)

/-! ### Reassembly -/

/-- `authCtx`: the place of the authentication context in the list of the processor. -/
structure Call where
  authCtx : ℕ
  allocSize : ℕ
  pkt : NcacnPacket
  request : Request
  bigEndian : Bool

def Call.stub (call : Call) : List UInt8 := call.request.stubAndVerifier

/-- One PDU and what happens to the allocations on its way: `callAlloc` for the call, `malloc`
for a buffer of a given size, `faulted` for the answer of `pdu_processor_fault`. -/
structure Pdu where
  pbuff : List UInt8
  length_lt : pbuff.length < 2 ^ 16
  callAlloc : Bool := true
  ndrMalloc : ℕ → Bool := fun _ => true
  authMalloc : ℕ → Bool := fun _ => true
  malloc : ℕ → Bool := fun _ => true
  faulted : Bool := true

inductive Outcome
  | error
  | fault
  | input
  | process (call : Call)
  | other

structure Processor (ν : Type) where
  fragmentedList : List Call
  authList : List (AuthContext ν)

structure Env (ν : Type) where
  ntlmssp : Ntlmssp ν
  maxRequestMem : ℕ

/-- The first partial call with the id, and the list without it. -/
def getFragmentedCall (calls : List Call) (callId : UInt32) : Option (Call × List Call) :=
  match calls.find? (·.pkt.callId == callId) with
  | none => none
  | some call => some (call, calls.eraseP (·.pkt.callId == callId))

/-- Rounded up to a multiple of 16 KiB, in 32 bits. -/
def roundAlloc (allocSize : ℕ) : ℕ :=
  ((allocSize + (2 ^ 32 - 1)) % 2 ^ 32 / (16 * 1024) + 1) * (16 * 1024) % 2 ^ 32

/-- What the first of several fragments asks for. -/
def Call.firstSize (call : Call) : ℕ :=
  let length := call.stub.length
  if call.request.allocHint.toNat < length then length * 8 % 2 ^ 32
  else call.request.allocHint.toNat

/-- A buffer of its own for a first fragment. Without one the fragment is rejected. -/
def firstFragment (env : Env ν) (p : Pdu) (call : Call) : Option (Option Call) :=
  if env.maxRequestMem < call.firstSize then some none
  else if p.malloc (roundAlloc call.firstSize) then
    if roundAlloc call.firstSize < call.stub.length then none
    else some (some { call with allocSize := roundAlloc call.firstSize })
  else some none

/-- The stub of `call` behind the one of `callx`, in the buffer of `callx`. -/
def appendStub (callx call : Call) : Option (Option Call) :=
  if callx.allocSize < callx.stub.length + call.stub.length then none
  else some (some { callx with
    pkt.pfcFlags := callx.pkt.pfcFlags ||| (call.pkt.pfcFlags &&& pfcFlagLast)
    request.stubAndVerifier := callx.stub ++ call.stub })

/-- What the joined fragments ask for. -/
def joinSize (callx call : Call) : ℕ :=
  max ((callx.stub.length + call.stub.length) % 2 ^ 32) callx.request.allocHint.toNat

/-- A later fragment. When it is rejected the partial call is freed. -/
def joinFragment (env : Env ν) (p : Pdu) (callx call : Call) : Option (Option Call) :=
  if callx.pkt.pktType ≠ call.pkt.pktType then some none
  else if callx.allocSize < joinSize callx call then
    if env.maxRequestMem < joinSize callx call then some none
    else if p.malloc (roundAlloc (joinSize callx call)) then
      if roundAlloc (joinSize callx call) < callx.stub.length then none
      else appendStub { callx with allocSize := roundAlloc (joinSize callx call) } call
    else some none
  else appendStub callx call

def Pdu.fault (p : Pdu) : Outcome := if p.faulted then .fault else .error

/-- The list takes a call that is not complete. -/
def Processor.keepOrProcess (s : Processor ν) (call : Call) : Outcome × Processor ν :=
  if call.pkt.last then (.process call, s)
  else if maxFragmentedCalls < s.fragmentedList.length then (.error, s)
  else (.input, { s with fragmentedList := s.fragmentedList ++ [call] })

/-- A request that the authentication has accepted. -/
def Processor.inputCall (env : Env ν) (s : Processor ν) (p : Pdu) (call : Call) :
    Option (Outcome × Processor ν) :=
  if call.pkt.first then
    if call.pkt.last then some (.process call, s)
    else do
      match ← firstFragment env p call with
      | none => some (p.fault, s)
      | some call => some (s.keepOrProcess call)
  else
    match getFragmentedCall s.fragmentedList call.pkt.callId with
    | none => some (p.fault, s)
    | some (callx, calls) => do
      let s := { s with fragmentedList := calls }
      match ← joinFragment env p callx call with
      | none => some (p.fault, s)
      | some call => some (s.keepOrProcess call)

def Pdu.bigEndian (p : Pdu) : Bool := p.pbuff.getD 4 0 &&& drepLe == 0

/-- The PDU as `pdu_ndr_pull_ncacnpkt` takes it apart. -/
def Pdu.pull (p : Pdu) : Option (NcacnPacket × Option Request) :=
  let objectPresent := p.pbuff.getD 3 0 &&& pfcFlagObjectUuid != 0
  let flags := { bigEndian := p.bigEndian : Flags }
  match pullNcacnpkt objectPresent { flags, data := p.pbuff, offset := 0, malloc := p.ndrMalloc }
  with
  | .error _ => none
  | .ok (packet, _) => some packet

def Processor.input (env : Env ν) (s : Processor ν) (p : Pdu) : Option (Outcome × Processor ν) :=
  if !p.callAlloc then some (.error, s)
  else match p.pull with
    | none => some (.error, s)
    | some (pkt, payload) =>
      if pkt.fragLength.toNat ≠ p.pbuff.length then some (.error, s)
      else if (!pkt.first || !pkt.last) && pkt.pktType != pktRequest then some (p.fault, s)
      else match payload with
        | none => some (.other, s)
        | some request =>
          match authRequest env.ntlmssp p.authMalloc s.authList pkt request.stubAndVerifier
              p.pbuff with
          | (none, auths) => some (p.fault, { s with authList := auths })
          | (some (i, stub), auths) =>
            Processor.inputCall env { s with authList := auths } p
              { authCtx := i, allocSize := 0, pkt
                request := { request with stubAndVerifier := stub }, bigEndian := p.bigEndian }

end SteepSystem.PduProcessor
