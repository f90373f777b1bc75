import SteepSystem.Lib.Attempts
import SteepSystem.PduProcessor.Model

/-!
`pdu_processor_reply_request` of `pdu_processor.c` from the marshalled reply on: the fragments
that it makes of the stub. What is sealed in place is kept as it was before.
-/

namespace SteepSystem.PduProcessor

open SteepSystem.Lib.Attempts SteepSystem.Ndr

def authTypeNone : UInt8 := 0

def ntlmsspSigSize : ℕ := 16

def baseMarshallSize : ℕ := 16 * 1024

/-- The marshalled reply, what the client has sent in its bind, and for each pass of the loop what
the allocations and the sealing give, if they come to it. `faulted` is the answer of
`pdu_processor_fault`. -/
structure Reply where
  maxRecvFrag : UInt16
  authType : UInt8
  authLevel : UInt8
  ntlmssp : Bool
  ndr64 : Bool
  stub : List UInt8
  stub_lt : stub.length < 2 ^ 32
  bnodeAlloc : ℕ → Bool
  malloc : ℕ → Bool
  seals : ℕ → Bool
  faulted : Bool

/-- A fragment of a response: the bytes between the header and the trailer, and the trailer with
the signature. -/
structure Fragment where
  first : Bool
  last : Bool
  allocHint : ℕ
  body : List UInt8
  authPadLength : ℕ
  verifierLength : ℕ
  deriving DecidableEq

namespace Fragment

/-- What a receiver takes for the stub. -/
def stub (f : Fragment) : List UInt8 := f.body.take (f.body.length - f.authPadLength)

def size (f : Fragment) : ℕ := requestLength + f.body.length + f.verifierLength

end Fragment

/-- `overrun`: a packet that is larger than its buffer passes the check, which is made in 32
bits. -/
inductive Failure
  | failed
  | overrun
  deriving DecidableEq

inductive Queued
  | fragment (f : Fragment)
  | fault
  deriving DecidableEq

namespace Reply

variable (r : Reply)

/-- `cli_max_recv_frag`, as `pdu_processor_process_bind` sets it. -/
def cliMaxRecvFrag : ℕ := min r.maxRecvFrag.toNat 0x2000

def sigSize : ℕ :=
  if r.authType ≠ authTypeNone ∧ r.authLevel ≠ authLevelEmpty ∧ r.authLevel ≠ authLevelNone ∧
      r.ntlmssp then ntlmsspSigSize
  else 0

/-- What the header, the trailer and the signature need. -/
def reserved : ℕ :=
  if r.sigSize = 0 then requestLength else requestLength + (authTrailerLength.toNat + r.sigSize)

/-- The room for a stub, in 32 bits, rounded down. -/
def chunkSize : ℕ :=
  let chunkSize := (r.cliMaxRecvFrag + (2 ^ 32 - r.reserved)) % 2 ^ 32
  chunkSize - chunkSize % 16

/-- The levels at which `pdu_processor_auth_response` signs. -/
def signs : Bool :=
  r.sigSize != 0 && (r.authLevel == authLevelPrivacy || r.authLevel == authLevelIntegrity)

/-- It knows what to do at the level. -/
def supports : Bool :=
  r.sigSize == 0 || r.authLevel == authLevelPrivacy || r.authLevel == authLevelIntegrity ||
    r.authLevel == authLevelConnect || r.authLevel == authLevelNone ||
    r.authLevel == authLevelEmpty

/-- The check and the copy of the packet behind its header. -/
def pushNcacnpkt (length : ℕ) : Except Failure Unit :=
  if baseMarshallSize < (requestLength + length) % 2 ^ 32 then .error .failed
  else if baseMarshallSize < requestLength + length then .error .overrun
  else .ok ()

/-- `pdu_processor_ncacn_push_with_auth` without a trailer. -/
def pushUnsigned (i : ℕ) (stub : List UInt8) : Except Failure (List UInt8 × ℕ × ℕ) :=
  if r.malloc i then do
    pushNcacnpkt stub.length
    pure (stub, 0, 0)
  else .error .failed

def authPadLength (length : ℕ) : ℕ := (16 - length % 16) % 16

/-- The end of the packet is aligned with the flag for NDR64, the trailer in any case. -/
def signedLength (length : ℕ) : ℕ :=
  let aligned := if r.ndr64 then roundUp length 4 else length
  roundUp (aligned + authPadLength length) 4

/-- The branch of `pdu_processor_auth_response` that signs or seals. The last of the checks for
the trailer is the strictest. -/
def pushSigned (i : ℕ) (stub : List UInt8) : Except Failure (List UInt8 × ℕ × ℕ) := do
  pushNcacnpkt stub.length
  let length := r.signedLength stub.length
  if baseMarshallSize < requestLength + length + authTrailerLength.toNat then throw .failed
  if r.seals i && r.malloc i then
    pure (stub ++ List.replicate (length - stub.length) 0, authPadLength stub.length,
      authTrailerLength.toNat + r.sigSize)
  else throw .failed

/-- `pdu_processor_auth_response`: the bytes behind the header, the padding and the length of the
trailer. -/
def authResponse (i : ℕ) (stub : List UInt8) : Except Failure (List UInt8 × ℕ × ℕ) :=
  if r.signs then r.pushSigned i stub
  else if r.supports then r.pushUnsigned i stub
  else .error .failed

/-- A pass of the loop: the fragment, and whether nothing is left of the stub. -/
def pass (i : ℕ) : Except Failure (Fragment × Bool) :=
  let stub := r.stub.drop (i * r.chunkSize)
  let length := if stub.length < r.chunkSize then stub.length else r.chunkSize
  if r.bnodeAlloc i then do
    let (body, authPadLength, verifierLength) ← r.authResponse i (stub.take length)
    pure ({ first := stub.length == r.stub.length, last := length == stub.length,
            allocHint := stub.length, body, authPadLength, verifierLength },
      stub.length - length == 0)
  else .error .failed

/-- The result and the reply list; nothing if the fuel does not suffice, or a copy runs over its
buffer. -/
def replyRequest (fuel : ℕ) : Option (Bool × List Queued) :=
  match run r.pass fuel 0 with
  | some (fragments, .ok ()) => some (true, fragments.map .fragment)
  | some (fragments, .error .failed) =>
    if r.faulted then some (true, fragments.map .fragment ++ [.fault])
    else some (false, fragments.map .fragment)
  | _ => none

end Reply

/-- Only the first fragment is marked as the first, and the last one as the last. -/
def Marked (fragments : List Fragment) : Prop :=
  ∀ i f, fragments[i]? = some f →
    f.first = decide (i = 0) ∧ f.last = decide (i + 1 = fragments.length)

/-- The call returns; its fragments make up the reply, unless there is a fault, and then it is
alone. -/
def Reply.Answers (r : Reply) : Prop :=
  ∃ fuel ok queued, r.replyRequest fuel = some (ok, queued) ∧
    (ok = true → .fault ∉ queued → ∃ fragments, queued = fragments.map .fragment ∧
      fragments.flatMap Fragment.stub = r.stub ∧ Marked fragments ∧
      ∀ f ∈ fragments, f.size ≤ r.cliMaxRecvFrag) ∧
    (.fault ∈ queued → queued = [.fault])

/-! ### The Condition -/

namespace Reply

variable (r : Reply)

/-- The size of a fragment that carries so much of the stub. -/
def fragmentSize (length : ℕ) : ℕ :=
  if r.signs then requestLength + r.signedLength length + (authTrailerLength.toNat + r.sigSize)
  else requestLength + length

/-- Sixteen bytes fit behind what is reserved; or the stub goes into one fragment, since it is
empty or the subtraction wraps, and that one fits. -/
def Large : Prop :=
  r.reserved + 16 ≤ r.cliMaxRecvFrag ∨
    (r.cliMaxRecvFrag < r.reserved ∨ r.stub = []) ∧ r.fragmentSize r.stub.length ≤ r.cliMaxRecvFrag

/-- A signed reply in NDR64 needs no padding to four bytes. -/
def Aligned : Prop := r.signs = true → r.ndr64 = true → r.stub.length % 4 = 0

/-- What is left for a pass, if it is not more than a chunk. -/
def pieceLength (j : ℕ) : ℕ := min r.chunkSize (r.stub.length - j * r.chunkSize)

/-- What a pass needs: the memory, and a packet that goes into its buffer. -/
def Makes (j : ℕ) : Prop :=
  r.bnodeAlloc j ∧ r.malloc j ∧
    if r.signs then
      r.seals j ∧ requestLength + r.signedLength (r.pieceLength j) + authTrailerLength.toNat ≤
        baseMarshallSize
    else r.supports ∧ requestLength + r.pieceLength j ≤ baseMarshallSize

/-- The packet has its 32 bits exceeded when it is pushed. -/
def Overruns (j : ℕ) : Prop :=
  2 ^ 32 ≤ requestLength + r.pieceLength j ∧ r.bnodeAlloc j ∧
    (r.signs ∨ r.supports ∧ r.malloc j)

/-- The passes before are made and leave some of the stub. -/
def Reaches (k : ℕ) : Prop := (k = 0 ∨ k * r.chunkSize < r.stub.length) ∧ ∀ j < k, r.Makes j

/-- If something is missing in a pass, it is the first one or the fault cannot be sent either. If
nothing is, the client has room for a fragment, and nothing is padded twice. -/
def Fits : Prop :=
  (∃ k, r.Reaches k ∧ ¬ r.Makes k ∧ ¬ r.Overruns k ∧ (k = 0 ∨ r.faulted = false)) ∨
    (∀ k, r.Reaches k → r.Makes k) ∧ r.Large ∧ r.Aligned

/-! ### A Pass -/

def rest (j : ℕ) : List UInt8 := r.stub.drop (j * r.chunkSize)

def piece (j : ℕ) : List UInt8 := (r.rest j).take r.chunkSize

/-- The fragment that a pass makes if it does not fail. -/
def fragment (j : ℕ) : Fragment :=
  { first := (r.rest j).length == r.stub.length
    last := decide ((r.rest j).length ≤ r.chunkSize)
    allocHint := (r.rest j).length
    body := if r.signs then r.piece j ++
        List.replicate (r.signedLength (r.piece j).length - (r.piece j).length) 0
      else r.piece j
    authPadLength := if r.signs then authPadLength (r.piece j).length else 0
    verifierLength := if r.signs then authTrailerLength.toNat + r.sigSize else 0 }

variable {r}

lemma piece_length (j : ℕ) : (r.piece j).length = r.pieceLength j := by
  simp [piece, rest, pieceLength]

lemma pieceLength_lt (r : Reply) (j : ℕ) : r.pieceLength j < 2 ^ 32 :=
  lt_of_le_of_lt ((Nat.min_le_right _ _).trans (Nat.sub_le _ _)) r.stub_lt

lemma pushNcacnpkt_cases {length : ℕ} (h : length < 2 ^ 32) :
    requestLength + length ≤ baseMarshallSize ∧ pushNcacnpkt length = .ok () ∨
      2 ^ 32 ≤ requestLength + length ∧ pushNcacnpkt length = .error .overrun ∨
      baseMarshallSize < requestLength + length ∧ requestLength + length < 2 ^ 32 ∧
        pushNcacnpkt length = .error .failed := by
  unfold pushNcacnpkt requestLength baseMarshallSize
  split
  · exact .inr (.inr ⟨by omega, by omega, rfl⟩)
  · split
    · exact .inr (.inl ⟨by omega, rfl⟩)
    · exact .inl ⟨by omega, rfl⟩

lemma le_signedLength (length : ℕ) : length + authPadLength length ≤ r.signedLength length := by
  unfold signedLength roundUp
  dsimp only
  split <;> omega

lemma authResponse_of_makes {j : ℕ} (h : r.Makes j) :
    r.authResponse j (r.piece j) =
      .ok (if r.signs then r.piece j ++
            List.replicate (r.signedLength (r.piece j).length - (r.piece j).length) 0
          else r.piece j,
        if r.signs then authPadLength (r.piece j).length else 0,
        if r.signs then authTrailerLength.toNat + r.sigSize else 0) := by
  obtain ⟨-, hm, h⟩ := h
  have hle := r.le_signedLength (r.pieceLength j)
  have hfits : requestLength + r.pieceLength j ≤ baseMarshallSize := by
    split at h
    · omega
    · exact h.2
  have hp : pushNcacnpkt (r.piece j).length = .ok () := by
    rw [piece_length]
    rcases pushNcacnpkt_cases (r.pieceLength_lt j) with hp | hp | hp
    · exact hp.2
    · have : baseMarshallSize = 16384 := rfl
      omega
    · omega
  unfold authResponse
  split
  · rename_i hs
    rw [if_pos hs] at h
    simp only [pushSigned, hp, hm, h.1, bind, Except.bind, pure, Except.pure, Bool.and_self,
      if_true]
    rw [piece_length, if_neg (by omega)]
  · rename_i hs
    rw [if_neg hs] at h
    simp only [pushUnsigned, hp, hm, h.1, bind, Except.bind, pure, Except.pure, if_true]

lemma authResponse_of_not_makes {j : ℕ} (hnode : r.bnodeAlloc j = true) (h : ¬ r.Makes j) :
    ∃ e, r.authResponse j (r.piece j) = .error e ∧ (e = .overrun ↔ r.Overruns j) := by
  have hbase : baseMarshallSize = 16384 := rfl
  have hcases := pushNcacnpkt_cases (r.pieceLength_lt j)
  rw [← piece_length] at hcases
  unfold authResponse
  split
  · rename_i hs
    simp only [pushSigned, bind, Except.bind]
    rcases hcases with ⟨hl, hp⟩ | ⟨hl, hp⟩ | ⟨hl, hl', hp⟩
    · simp only [hp]
      refine ⟨.failed, ?_, ?_⟩
      · split
        · rfl
        · rename_i hsize
          simp only [pure, Except.pure]
          rw [if_neg]
          · rfl
          · rw [Bool.and_eq_true]
            rintro ⟨hseals, hm⟩
            rw [piece_length] at hsize
            exact h ⟨hnode, hm, by rw [if_pos hs]; exact ⟨hseals, by omega⟩⟩
      · rw [piece_length] at hl
        simp only [Overruns, reduceCtorEq, false_iff]
        omega
    · rw [hp]
      rw [piece_length] at hl
      exact ⟨.overrun, rfl, iff_of_true rfl ⟨hl, hnode, .inl hs⟩⟩
    · rw [hp]
      rw [piece_length] at hl'
      refine ⟨.failed, rfl, ?_⟩
      simp only [Overruns, reduceCtorEq, false_iff]
      omega
  · rename_i hs
    split
    · rename_i hsup
      unfold pushUnsigned
      split
      · rename_i hm
        rcases hcases with ⟨hl, hp⟩ | ⟨hl, hp⟩ | ⟨hl, hl', hp⟩
        · rw [piece_length] at hl
          exact absurd ⟨hnode, hm, by rw [if_neg hs]; exact ⟨hsup, hl⟩⟩ h
        · rw [hp]
          rw [piece_length] at hl
          exact ⟨.overrun, rfl, iff_of_true rfl ⟨hl, hnode, .inr ⟨hsup, hm⟩⟩⟩
        · rw [hp]
          rw [piece_length] at hl'
          refine ⟨.failed, rfl, ?_⟩
          simp only [Overruns, reduceCtorEq, false_iff]
          omega
      · rename_i hm
        exact ⟨.failed, rfl, by simp [Overruns, hs, hm]⟩
    · rename_i hsup
      exact ⟨.failed, rfl, by simp [Overruns, hs, hsup]⟩

lemma take_length (j : ℕ) :
    (r.rest j).take (if (r.rest j).length < r.chunkSize then (r.rest j).length else r.chunkSize) =
      r.piece j := by
  unfold piece
  split
  · rw [List.take_length, List.take_of_length_le (by omega)]
  · rfl

lemma pass_of_makes {j : ℕ} (h : r.Makes j) :
    r.pass j = .ok (r.fragment j, decide ((r.rest j).length ≤ r.chunkSize)) := by
  have hlast : ∀ n c : ℕ, ((if n < c then n else c) == n) = decide (n ≤ c) ∧
      (n - (if n < c then n else c) == 0) = decide (n ≤ c) := by
    intro n c
    constructor <;> rw [Bool.eq_iff_iff] <;> simp only [beq_iff_eq, decide_eq_true_eq] <;>
      split <;> omega
  unfold pass
  simp only
  rw [if_pos h.1, show List.drop (j * r.chunkSize) r.stub = r.rest j from rfl, take_length,
    (hlast _ _).1, (hlast _ _).2, authResponse_of_makes h]
  rfl

lemma pass_of_not_makes {j : ℕ} (h : ¬ r.Makes j) :
    ∃ e, r.pass j = .error e ∧ (e = .overrun ↔ r.Overruns j) := by
  unfold pass
  simp only
  by_cases hb : r.bnodeAlloc j = true
  · rw [if_pos hb, show List.drop (j * r.chunkSize) r.stub = r.rest j from rfl, take_length]
    obtain ⟨e, he, hiff⟩ := authResponse_of_not_makes hb h
    rw [he]
    exact ⟨e, rfl, hiff⟩
  · rw [if_neg hb]
    exact ⟨.failed, rfl, by simp [Overruns, hb]⟩

/-! ### Sizes -/

lemma reserved_cases (r : Reply) :
    r.sigSize = 0 ∧ r.reserved = 24 ∧ r.signs = false ∨ r.sigSize = 16 ∧ r.reserved = 48 := by
  unfold reserved signs
  have hsig : r.sigSize = 0 ∨ r.sigSize = 16 := by
    unfold sigSize ntlmsspSigSize
    split <;> simp
  rcases hsig with h | h
  · exact .inl ⟨h, by simp [h, requestLength], by simp [h]⟩
  · exact .inr ⟨h, by simp [h, requestLength, authTrailerLength]⟩

lemma chunkSize_mod (r : Reply) : r.chunkSize % 16 = 0 := by
  unfold chunkSize
  dsimp only
  omega

lemma cliMaxRecvFrag_le (r : Reply) : r.cliMaxRecvFrag ≤ 0x2000 := Nat.min_le_right ..

lemma chunkSize_of_le (h : r.reserved ≤ r.cliMaxRecvFrag) :
    r.chunkSize = (r.cliMaxRecvFrag - r.reserved) / 16 * 16 := by
  have := r.cliMaxRecvFrag_le
  unfold chunkSize
  dsimp only
  omega

/-- A small value of the client wraps. -/
lemma chunkSize_of_lt (h : r.cliMaxRecvFrag < r.reserved) : 2 ^ 32 - 64 ≤ r.chunkSize := by
  have : r.reserved = 24 ∨ r.reserved = 48 := by
    rcases r.reserved_cases with h | h
    · exact .inl h.2.1
    · exact .inr h.2
  unfold chunkSize
  dsimp only
  omega

/-- The padding to four bytes adds nothing exactly where there is none. -/
lemma signedLength_eq_iff (length : ℕ) :
    r.signedLength length = length + authPadLength length ↔
      (r.ndr64 = true → length % 4 = 0) := by
  unfold signedLength roundUp authPadLength
  dsimp only
  split
  · rename_i h
    simp only [h, true_implies]
    omega
  · rename_i h
    simp only [h, false_implies, iff_true, Bool.false_eq_true]
    omega

lemma fragment_size (j : ℕ) : (r.fragment j).size = r.fragmentSize (r.piece j).length := by
  unfold Fragment.size fragmentSize fragment
  split
  · rename_i hs
    have := r.le_signedLength (r.piece j).length
    simp only [List.length_append, List.length_replicate]
    omega
  · rfl

lemma fragment_stub_length (j : ℕ) : (r.fragment j).stub.length =
    if r.signs then r.signedLength (r.piece j).length - authPadLength (r.piece j).length
    else (r.piece j).length := by
  unfold Fragment.stub fragment
  have := r.le_signedLength (r.piece j).length
  by_cases hs : r.signs = true
  · simp only [hs, if_true, List.length_take, List.length_append, List.length_replicate]
    omega
  · simp [hs]

lemma fragment_stub (j : ℕ)
    (h : r.signs = true → r.ndr64 = true → (r.piece j).length % 4 = 0) :
    (r.fragment j).stub = r.piece j := by
  unfold Fragment.stub fragment
  by_cases hs : r.signs = true
  · simp only [hs, if_true, List.length_append, List.length_replicate]
    rw [(signedLength_eq_iff _).mpr (h hs), List.take_left']
    omega
  · simp [hs]

lemma le_fragmentSize (r : Reply) (length : ℕ) : length ≤ r.fragmentSize length := by
  have := r.le_signedLength length
  unfold fragmentSize
  split <;> omega

lemma fragmentSize_le {length : ℕ} (hroom : r.reserved + 16 ≤ r.cliMaxRecvFrag)
    (hlength : length ≤ r.chunkSize)
    (h : r.signs = true → r.ndr64 = true → length % 4 = 0) :
    r.fragmentSize length ≤ r.cliMaxRecvFrag := by
  rw [chunkSize_of_le (by omega)] at hlength
  have htrailer : authTrailerLength.toNat = 8 := rfl
  unfold fragmentSize
  rcases r.reserved_cases with ⟨-, hres, hs⟩ | ⟨hsig, hres⟩
  · simp only [hs, requestLength]
    rw [if_neg (by simp)]
    omega
  · split
    · rename_i hs
      rw [(signedLength_eq_iff _).mpr (h hs), hsig, htrailer, requestLength, authPadLength]
      omega
    · rw [requestLength]
      omega

lemma pieces_flatMap (r : Reply) (m : ℕ) :
    (List.range m).flatMap r.piece = r.stub.take (m * r.chunkSize) := by
  induction m with
  | zero => simp
  | succ m ih =>
    rw [List.range_succ, List.flatMap_append, ih, Nat.succ_mul, List.take_add]
    simp [piece, rest]

/-- Fragments are at least as long as their pieces, and where they make up the stub no longer. -/
lemma length_flatMap_le {f g : ℕ → List UInt8} (h : ∀ j, (f j).length ≤ (g j).length) (m : ℕ) :
    ((List.range m).flatMap f).length ≤ ((List.range m).flatMap g).length := by
  induction m with
  | zero => simp
  | succ m ih =>
    simp only [List.range_succ, List.flatMap_append, List.length_append, List.flatMap_cons,
      List.flatMap_nil, List.append_nil]
    have := h m
    omega

lemma aligned_of_flatMap {m : ℕ} (hlast : r.stub.length ≤ (m + 1) * r.chunkSize)
    (hbefore : m * r.chunkSize ≤ r.stub.length)
    (h : (List.range (m + 1)).flatMap (fun j => (r.fragment j).stub) = r.stub) : r.Aligned := by
  intro hs hndr
  have hle : ∀ j, (r.piece j).length ≤ ((r.fragment j).stub).length := by
    intro j
    have := r.le_signedLength (r.piece j).length
    rw [fragment_stub_length, if_pos hs]
    omega
  have hpieces : ((List.range (m + 1)).flatMap r.piece).length = r.stub.length := by
    rw [pieces_flatMap, List.take_of_length_le hlast]
  have hsum := congrArg List.length h
  have hfirst := length_flatMap_le hle m
  simp only [List.range_succ, List.flatMap_append, List.length_append, List.flatMap_cons,
    List.flatMap_nil, List.append_nil] at hsum hpieces
  have heq : ((r.fragment m).stub).length = (r.piece m).length := by
    have := hle m
    omega
  rw [fragment_stub_length, if_pos hs] at heq
  have hge := r.le_signedLength (r.piece m).length
  have hmod := (signedLength_eq_iff (r := r) (r.piece m).length).mp (by omega) hndr
  rw [piece_length, pieceLength] at hmod
  rw [Nat.succ_mul] at hlast
  have hchunk := r.chunkSize_mod
  have hm : m * r.chunkSize % 4 = 0 := by
    rw [Nat.mul_mod, show r.chunkSize % 4 = 0 by omega]
    simp
  omega

/-! ### A Run -/

lemma getElem?_fragments {k j : ℕ} {f : Fragment}
    (h : ((List.range k).map r.fragment)[j]? = some f) : j < k ∧ f = r.fragment j := by
  obtain ⟨hlt, rfl⟩ := List.getElem?_eq_some_iff.mp h
  rw [List.length_map, List.length_range] at hlt
  exact ⟨hlt, by simp⟩

/-- A pass is not the last one exactly if there is something for the next one. -/
lemma lt_rest_iff (j : ℕ) :
    ¬ (r.rest j).length ≤ r.chunkSize ↔ (j + 1) * r.chunkSize < r.stub.length := by
  rw [rest, List.length_drop, Nat.succ_mul]
  omega

lemma lt_of_reaches {k j : ℕ} (h : r.Reaches k) (hj : j < k) :
    (j + 1) * r.chunkSize < r.stub.length := by
  rcases h.1 with rfl | h
  · cases hj
  · exact lt_of_le_of_lt (Nat.mul_le_mul_right _ hj) h

lemma passes_of_reaches {k : ℕ} (h : r.Reaches k) :
    Passes r.pass 0 ((List.range k).map r.fragment) := by
  intro j f hf
  obtain ⟨hj, rfl⟩ := getElem?_fragments hf
  rw [Nat.zero_add, pass_of_makes (h.2 j hj),
    decide_eq_false ((lt_rest_iff j).mpr (lt_of_reaches h hj))]

lemma makes_of_pass {j : ℕ} {f : Fragment} {last : Bool} (h : r.pass j = .ok (f, last)) :
    r.Makes j ∧ f = r.fragment j ∧ last = decide ((r.rest j).length ≤ r.chunkSize) := by
  by_cases hm : r.Makes j
  · rw [pass_of_makes hm] at h
    cases h
    exact ⟨hm, rfl, rfl⟩
  · obtain ⟨e, he, -⟩ := pass_of_not_makes hm
    rw [he] at h
    cases h

/-- The passes of a run are the ones that the condition speaks of. -/
lemma reaches_of_passes {values : List Fragment} (h : Passes r.pass 0 values) :
    values = (List.range values.length).map r.fragment ∧ r.Reaches values.length := by
  have hpass : ∀ j < values.length, r.Makes j ∧ values[j]? = some (r.fragment j) ∧
      (j + 1) * r.chunkSize < r.stub.length := by
    intro j hj
    have hp := h j _ (List.getElem?_eq_getElem hj)
    rw [Nat.zero_add] at hp
    obtain ⟨hm, hf, hlast⟩ := makes_of_pass hp
    refine ⟨hm, by rw [List.getElem?_eq_getElem hj, hf], ?_⟩
    exact (lt_rest_iff j).mp (of_decide_eq_false hlast.symm)
  refine ⟨?_, ?_, fun j hj => (hpass j hj).1⟩
  · ext j : 1
    by_cases hj : j < values.length
    · rw [(hpass j hj).2.1]
      simp [hj]
    · rw [List.getElem?_eq_none (by omega), List.getElem?_eq_none (by simp; omega)]
  · rcases Nat.eq_zero_or_pos values.length with h0 | hpos
    · exact .inl h0
    · have := (hpass (values.length - 1) (by omega)).2.2
      rw [show values.length - 1 + 1 = values.length by omega] at this
      exact .inr this

lemma marked_fragments {k : ℕ} (h : r.Reaches k) (hlast : (r.rest k).length ≤ r.chunkSize) :
    Marked ((List.range (k + 1)).map r.fragment) := by
  intro j f hf
  obtain ⟨hj, rfl⟩ := getElem?_fragments hf
  rw [List.length_map, List.length_range]
  constructor
  · rw [fragment, Bool.eq_iff_iff, beq_iff_eq, decide_eq_true_iff, rest, List.length_drop]
    constructor
    · intro hlen
      by_contra hne
      have hlt := lt_of_reaches h (show j - 1 < k by omega)
      rw [show j - 1 + 1 = j by omega] at hlt
      have hzero : j * r.chunkSize = 0 := by omega
      rcases Nat.mul_eq_zero.mp hzero with hj0 | hc
      · exact hne hj0
      · rw [rest, List.length_drop, hc] at hlast
        omega
    · rintro rfl
      simp
  · rw [fragment, decide_eq_decide]
    constructor
    · intro hle
      by_contra hne
      exact (lt_rest_iff j).mpr (lt_of_reaches h (by omega)) hle
    · intro heq
      rw [show j = k by omega]
      exact hlast

lemma pieceLength_mod (h : r.Aligned) (hs : r.signs = true) (hndr : r.ndr64 = true) (j : ℕ) :
    r.pieceLength j % 4 = 0 := by
  have hn := h hs hndr
  have hchunk := r.chunkSize_mod
  have hmod : j * r.chunkSize % 4 = 0 := by
    rw [Nat.mul_mod, show r.chunkSize % 4 = 0 by omega]
    simp
  unfold pieceLength
  omega

lemma stub_of_fragments {k : ℕ} (ha : r.Aligned) (hlast : (r.rest k).length ≤ r.chunkSize)
    (hk : k * r.chunkSize ≤ r.stub.length) :
    ((List.range (k + 1)).map r.fragment).flatMap Fragment.stub = r.stub := by
  have hstub : ∀ j ∈ List.range (k + 1), (r.fragment j).stub = r.piece j := by
    intro j hj
    refine fragment_stub j fun hs hndr => ?_
    rw [piece_length]
    exact pieceLength_mod ha hs hndr j
  rw [List.flatMap_map, List.flatMap_congr hstub, pieces_flatMap, List.take_of_length_le]
  rw [rest, List.length_drop] at hlast
  rw [Nat.succ_mul]
  omega

lemma large_of_sizes {k : ℕ} (hlast : (r.rest k).length ≤ r.chunkSize)
    (h : ∀ j ≤ k, (r.fragment j).size ≤ r.cliMaxRecvFrag) : r.Large := by
  have hzero := h 0 (Nat.zero_le k)
  rw [fragment_size, piece_length, pieceLength, Nat.zero_mul, Nat.sub_zero] at hzero
  by_cases hroom : r.reserved + 16 ≤ r.cliMaxRecvFrag
  · exact .inl hroom
  right
  by_cases hwrap : r.cliMaxRecvFrag < r.reserved
  · refine ⟨.inl hwrap, ?_⟩
    have hchunk := chunkSize_of_lt hwrap
    have hcli := r.cliMaxRecvFrag_le
    have hle := r.le_fragmentSize (min r.chunkSize r.stub.length)
    rwa [show min r.chunkSize r.stub.length = r.stub.length by omega] at hzero
  · have hchunk : r.chunkSize = 0 := by
      rw [chunkSize_of_le (by omega)]
      omega
    have hempty : r.stub = [] := by
      rw [rest, List.length_drop, hchunk] at hlast
      exact List.length_eq_zero_iff.mp (by omega)
    refine ⟨.inr hempty, ?_⟩
    rw [hempty] at hzero ⊢
    simpa using hzero

lemma size_of_large (hl : r.Large) (ha : r.Aligned) {j : ℕ}
    (hj : j = 0 ∨ j * r.chunkSize < r.stub.length) :
    (r.fragment j).size ≤ r.cliMaxRecvFrag := by
  rw [fragment_size, piece_length]
  rcases hl with hroom | ⟨hone, hsize⟩
  · apply fragmentSize_le hroom (Nat.min_le_left _ _)
    exact fun hs hndr => pieceLength_mod ha hs hndr j
  -- there is one fragment only
  · have hle := r.le_fragmentSize r.stub.length
    have hcli := r.cliMaxRecvFrag_le
    have hpiece : r.pieceLength j = r.stub.length := by
      rcases hone with hwrap | hempty
      · have hchunk := chunkSize_of_lt hwrap
        have hzero : j = 0 := by
          rcases Nat.eq_zero_or_pos j with hzero | hpos
          · exact hzero
          · have := Nat.le_mul_of_pos_left r.chunkSize hpos
            omega
        rw [pieceLength, hzero, Nat.zero_mul]
        omega
      · rw [pieceLength, hempty]
        simp
    rw [hpiece]
    exact hsize

/-- A last pass is reached if no pass before it fails. -/
lemma exists_last (hl : r.Large) (h : ∀ k, r.Reaches k → r.Makes k) :
    ∃ k, r.Reaches k ∧ (r.rest k).length ≤ r.chunkSize := by
  rcases Nat.eq_zero_or_pos r.chunkSize with hc | hc
  · refine ⟨0, ⟨.inl rfl, by simp⟩, ?_⟩
    rw [rest, List.length_drop, hc]
    rcases hl with hroom | ⟨hwrap | hempty, -⟩
    · rw [chunkSize_of_le (by omega)] at hc
      omega
    · have := chunkSize_of_lt hwrap
      omega
    · simp [hempty]
  · have hmul : (r.stub.length - 1) / r.chunkSize * r.chunkSize ≤ r.stub.length - 1 :=
      Nat.div_mul_le_self _ _
    have hmakes : ∀ j ≤ (r.stub.length - 1) / r.chunkSize, r.Makes j := by
      intro j
      induction j using Nat.strongRecOn with
      | ind j ih =>
        intro hj
        refine h j ⟨?_, fun i hi => ih i hi (by omega)⟩
        have := Nat.mul_le_mul_right r.chunkSize hj
        rcases Nat.eq_zero_or_pos r.stub.length with hn | hn
        · rw [hn] at hj
          simp at hj
          exact .inl hj
        · right
          omega
    refine ⟨(r.stub.length - 1) / r.chunkSize, ⟨?_, fun j hj => hmakes j hj.le⟩, ?_⟩
    · rcases Nat.eq_zero_or_pos r.stub.length with hn | hn
      · left
        simp [hn]
      · right
        omega
    · have := Nat.lt_div_mul_add hc (a := r.stub.length - 1)
      rw [rest, List.length_drop]
      omega

lemma fits_of_answers (h : r.Answers) : r.Fits := by
  obtain ⟨fuel, ok, queued, hr, hwhole, halone⟩ := h
  unfold replyRequest at hr
  split at hr
  · rename_i fragments hrun
    cases hr
    rcases run_eq_some hrun with ⟨before, f, rfl, -, hpass, hf⟩ | ⟨e, he, -⟩
    swap
    · cases he
    right
    obtain ⟨hbefore, hreach⟩ := reaches_of_passes hpass
    rw [Nat.zero_add] at hf
    obtain ⟨hmakes, rfl, hlast⟩ := makes_of_pass hf
    have hlast := of_decide_eq_true hlast.symm
    have hall : before ++ [r.fragment before.length] =
        (List.range (before.length + 1)).map r.fragment := by
      rw [List.range_succ, List.map_append, ← hbefore]
      rfl
    obtain ⟨fragments, hq, hstub, -, hsize⟩ := hwhole rfl (by simp)
    have hmap : (List.range (before.length + 1)).map r.fragment = fragments := by
      apply List.map_injective_iff.mpr (fun _ _ h => Queued.fragment.inj h)
      rw [← hall, hq]
    subst hmap
    refine ⟨fun k hk => ?_, large_of_sizes hlast fun j hj => ?_, ?_⟩
    · rcases Nat.lt_trichotomy k before.length with hlt | rfl | hgt
      · exact hreach.2 k hlt
      · exact hmakes
      · exact absurd hlast ((lt_rest_iff _).mpr (lt_of_reaches hk hgt))
    · apply hsize
      exact List.mem_map.mpr ⟨j, List.mem_range.mpr (by omega), rfl⟩
    · rw [List.flatMap_map] at hstub
      apply aligned_of_flatMap _ _ hstub
      · rw [rest, List.length_drop] at hlast
        rw [Nat.succ_mul]
        omega
      · rcases hreach.1 with h0 | hlt
        · rw [h0, Nat.zero_mul]
          exact Nat.zero_le _
        · exact hlt.le
  · rename_i fragments hrun
    left
    rcases run_eq_some hrun with ⟨before, f, -, hok, -⟩ | ⟨e, he, hpass, hfail⟩
    · cases hok
    cases he
    obtain ⟨-, hreach⟩ := reaches_of_passes hpass
    rw [Nat.zero_add] at hfail
    have hnot : ¬ r.Makes fragments.length := by
      intro hm
      rw [pass_of_makes hm] at hfail
      cases hfail
    obtain ⟨e, he, hiff⟩ := pass_of_not_makes hnot
    rw [hfail] at he
    cases he
    refine ⟨_, hreach, hnot, fun ho => by simpa using hiff.mpr ho, ?_⟩
    cases hfault : r.faulted
    · exact .inr rfl
    · rw [if_pos hfault] at hr
      cases hr
      have := congrArg List.length (halone (by simp))
      rw [List.length_append, List.length_map] at this
      left
      simpa using this
  · cases hr

lemma answers_of_fits (h : r.Fits) : r.Answers := by
  rcases h with ⟨k, hreach, hnot, hover, halone⟩ | ⟨hmakes, hl, ha⟩
  · obtain ⟨e, he, hiff⟩ := pass_of_not_makes hnot
    have hfail : e = .failed := by
      cases e
      · rfl
      · exact absurd (hiff.mp rfl) hover
    subst hfail
    have hrun := run_of_error (passes_of_reaches hreach) (by simpa using he)
    cases hfault : r.faulted
    · refine ⟨((List.range k).map r.fragment).length + 1, false,
        ((List.range k).map r.fragment).map .fragment, ?_, by simp, by simp⟩
      rw [replyRequest, hrun]
      simp [hfault]
    · rw [hfault] at halone
      obtain rfl : k = 0 := by simpa using halone
      refine ⟨0 + 1, true, [.fault], ?_, by simp, by simp⟩
      rw [List.range_zero, List.map_nil, List.length_nil] at hrun
      rw [replyRequest, hrun]
      simp [hfault]
  · obtain ⟨k, hreach, hlast⟩ := exists_last hl hmakes
    have hrun := run_of_last (passes_of_reaches hreach)
      (a := r.fragment k) (by
        rw [List.length_map, List.length_range, Nat.zero_add, pass_of_makes (hmakes k hreach),
          decide_eq_true hlast])
    refine ⟨_, true, _, by rw [replyRequest, hrun], fun _ _ => ⟨_, rfl, ?_⟩, by simp⟩
    have hall : (List.range k).map r.fragment ++ [r.fragment k] =
        (List.range (k + 1)).map r.fragment := by
      rw [List.range_succ, List.map_append]
      rfl
    have hk : ∀ j ≤ k, j = 0 ∨ j * r.chunkSize < r.stub.length := by
      intro j hj
      rcases hreach.1 with rfl | hlt
      · exact .inl (by omega)
      · exact .inr (lt_of_le_of_lt (Nat.mul_le_mul_right _ hj) hlt)
    rw [hall]
    refine ⟨stub_of_fragments ha hlast ?_, marked_fragments hreach hlast, fun f hf => ?_⟩
    · rcases hk k le_rfl with rfl | hlt
      · rw [Nat.zero_mul]
        exact Nat.zero_le _
      · exact hlt.le
    · obtain ⟨j, hj, rfl⟩ := List.mem_map.mp hf
      exact size_of_large hl ha (hk j (by have := List.mem_range.mp hj; omega))

end Reply

/-- **The fragments make up the reply, and a fault is alone, exactly if the client has room for
them, they need no second padding, and nothing fails behind the first of them.** -/
theorem Reply.answers_iff (r : Reply) : r.Answers ↔ r.Fits :=
  ⟨fits_of_answers, answers_of_fits⟩

/-- A reply that is not signed, to a client with this size. The passes from the second on find
memory or not. -/
def plainReply (maxRecvFrag : UInt16) (memory : Bool) : Reply where
  maxRecvFrag
  authType := authTypeNone
  authLevel := authLevelEmpty
  ntlmssp := false
  ndr64 := false
  stub := List.replicate 17 0
  stub_lt := by simp
  bnodeAlloc i := i = 0 || memory
  malloc _ := true
  seals _ := true
  faulted := true

/-- **A client that has room for a header only gets empty fragments for ever, and if there is no
memory for the second fragment, the fault stands behind the first.** -/
theorem not_answers : ¬ (plainReply 24 true).Answers ∧ ¬ (plainReply 40 false).Answers := by
  constructor
  · intro h
    rcases Reply.fits_of_answers h with ⟨k, -, hnot, -⟩ | ⟨-, hl, -⟩
    · refine hnot ⟨by simp [plainReply], rfl, ?_⟩
      rw [if_neg (by decide), Reply.pieceLength, show (plainReply 24 true).chunkSize = 0 from rfl,
        Nat.zero_min]
      decide
    · rcases hl with hroom | ⟨hwrap | hempty, -⟩
      · exact absurd hroom (by decide)
      · exact absurd hwrap (by decide)
      · exact absurd hempty (by decide)
  · intro h
    have hfirst : (plainReply 40 false).Makes 0 := ⟨rfl, rfl, by decide⟩
    rcases Reply.fits_of_answers h with ⟨k, -, hnot, -, rfl | hfault⟩ | ⟨hmakes, -⟩
    · exact hnot hfirst
    · cases hfault
    · have hreach : (plainReply 40 false).Reaches 1 := by
        refine ⟨.inr (by decide), fun j hj => ?_⟩
        obtain rfl : j = 0 := by omega
        exact hfirst
      exact absurd (hmakes 1 hreach).1 (by decide)

end SteepSystem.PduProcessor
