import SteepSystem.Lib.Runs
import SteepSystem.PduProcessor.Stub

/-!
Connections: the requests that the processor executes are the fragments of their call ids joined
in the order of arrival.
-/

namespace SteepSystem.PduProcessor

open SteepSystem.Lib.Runs

variable {ν : Type}

/-! ### Connections -/

/-- The request in a PDU that passes the checks of the packet. -/
def Pdu.request (p : Pdu) : Option (NcacnPacket × Request) :=
  match p.pull with
  | some (pkt, some request) =>
    if p.callAlloc ∧ pkt.fragLength.toNat = p.pbuff.length then some (pkt, request) else none
  | _ => none

/-- Every packet that the PDU can be taken for is a request. -/
def Pdu.IsRequest (p : Pdu) : Prop := ∀ packet ∈ p.pull, packet.1.pktType = pktRequest

/-- The context and the stub under which the authentication accepts a request. -/
def Processor.authenticate (env : Env ν) (s : Processor ν) (p : Pdu) (pkt : NcacnPacket)
    (request : Request) : Option (ℕ × List UInt8) :=
  (authRequest env.ntlmssp p.authMalloc s.authList pkt request.stubAndVerifier p.pbuff).1

/-- The call that an accepted request makes. -/
def Processor.offered (env : Env ν) (s : Processor ν) (p : Pdu) : Option Call := do
  let (pkt, request) ← p.request
  let (i, stub) ← s.authenticate env p pkt request
  pure { authCtx := i, allocSize := 0, pkt
         request := { request with stubAndVerifier := stub }, bigEndian := p.bigEndian }

/-- A request fragment that came in, with the answer of the authentication. -/
structure Arrival where
  callId : UInt32
  first : Bool
  last : Bool
  accepted : Option (ℕ × List UInt8)

def Arrival.stub (a : Arrival) : List UInt8 := a.accepted.elim [] Prod.snd

def Processor.arrivals (env : Env ν) (s : Processor ν) (p : Pdu) : List Arrival :=
  match p.request with
  | none => []
  | some (pkt, request) =>
    [{ callId := pkt.callId, first := pkt.first, last := pkt.last
       accepted := s.authenticate env p pkt request }]

/-- The fragments of a call id since its last first one. -/
def fragmentsOf (arrivals : List Arrival) (callId : UInt32) : List Arrival :=
  arrivals.foldl (fun fragments a =>
    if a.callId = callId then if a.first then [a] else fragments ++ [a] else fragments) []

/-- `arrivals`: what came in so far. A connection ends with the first error. -/
structure Connection (ν : Type) where
  processor : Processor ν
  arrivals : List Arrival
  ended : Bool

def start (auths : List (AuthContext ν)) : Connection ν :=
  { processor := { fragmentedList := [], authList := auths }, arrivals := [], ended := false }

def Outcome.isError : Outcome → Bool
  | error => true
  | _ => false

def Connection.step (env : Env ν) (c : Connection ν) (p : Pdu) (c' : Connection ν) : Prop :=
  ∃ outcome s, c.processor.input env p = some (outcome, s) ∧
    c' = { processor := s, arrivals := c.arrivals ++ c.processor.arrivals env p
           ended := outcome.isError }

/-- The next PDU of a connection. -/
def Connection.Admits (c : Connection ν) (p : Pdu) : Prop := c.ended = false ∧ p.IsRequest

/-- The stub is that of the fragments, each of which was accepted under the context of the
call. -/
structure Reassembled (fragments : List Arrival) (call : Call) : Prop where
  first : ∃ a ∈ fragments.head?, a.first = true
  accepted : ∀ a ∈ fragments, ∃ stub, a.accepted = some (call.authCtx, stub)
  stub : call.stub = fragments.flatMap Arrival.stub

/-- The last fragment is the only one with the flag. -/
structure Complete (fragments : List Arrival) : Prop where
  last : ∃ a ∈ fragments.getLast?, a.last = true
  inner : ∀ a ∈ fragments.dropLast, a.last = false

/-- What the next PDU leads to: no copy runs over the buffer, a request is executed with its own
fragments, and a rejected one leaves no partial call. -/
structure Sound (env : Env ν) (c : Connection ν) (p : Pdu) : Prop where
  copied : (c.processor.input env p).isSome
  executed : ∀ call s, c.processor.input env p = some (.process call, s) →
    let fragments := fragmentsOf (c.arrivals ++ c.processor.arrivals env p) call.pkt.callId
    Reassembled fragments call ∧ Complete fragments
  rejected : ∀ s pkt request, c.processor.input env p = some (.fault, s) →
    p.request = some (pkt, request) → ∀ call ∈ s.fragmentedList, call.pkt.callId ≠ pkt.callId

/-! ### The Condition -/

/-- A size within the limit can be rounded up in 32 bits. -/
def Fits (env : Env ν) (size : ℕ) : Prop :=
  env.maxRequestMem < size ∨ size ≤ 2 ^ 32 - 16 * 1024

/-- While a partial call has the id of a request, the request is no first fragment and the
authentication accepts it under the context of that call. The sizes can be rounded up, unless
there is nothing to copy. -/
structure Meets (env : Env ν) (s : Processor ν) (p : Pdu) : Prop where
  joins : ∀ pkt request, p.request = some (pkt, request) →
    ∀ callx ∈ s.fragmentedList, callx.pkt.callId = pkt.callId →
      pkt.first = false ∧ ∃ stub, s.authenticate env p pkt request = some (callx.authCtx, stub)
  firstFits : ∀ call, s.offered env p = some call → call.pkt.first = true →
    call.pkt.last = false → call.stub = [] ∨ Fits env call.firstSize
  joinFits : ∀ call, s.offered env p = some call →
    ∀ callx ∈ s.fragmentedList, callx.pkt.callId = call.pkt.callId →
      callx.stub ++ call.stub = [] ∨
        callx.stub.length + call.stub.length < 2 ^ 32 ∧
          (joinSize callx call ≤ callx.allocSize ∨ Fits env (joinSize callx call))

/-! ### One PDU -/

section Sizes

lemma roundAlloc_lt (size : ℕ) : roundAlloc size < 2 ^ 32 := Nat.mod_lt _ (by norm_num)

lemma le_roundAlloc {size : ℕ} (h : size ≤ 2 ^ 32 - 16 * 1024) : size ≤ roundAlloc size := by
  unfold roundAlloc
  omega

variable {env : Env ν} {p : Pdu} {callx call : Call}

lemma length_le_firstSize (h : call.stub.length < 2 ^ 16) :
    call.stub.length ≤ call.firstSize := by
  unfold Call.firstSize
  dsimp only
  split <;> omega

lemma firstFragment_spec (hstub : call.stub.length < 2 ^ 16)
    (hfits : call.stub = [] ∨ Fits env call.firstSize) :
    ∃ r, firstFragment env p call = some r ∧ ∀ c ∈ r, ∃ size, c = { call with allocSize := size } ∧
      call.stub.length ≤ size ∧ size < 2 ^ 32 := by
  unfold firstFragment
  split
  · exact ⟨none, rfl, by simp⟩
  · rename_i hmax
    split
    · have hle : call.stub.length ≤ roundAlloc call.firstSize := by
        rcases hfits with hnil | hbig | hsmall
        · simp [hnil]
        · exact absurd hbig hmax
        · exact (length_le_firstSize hstub).trans (le_roundAlloc hsmall)
      rw [if_neg (by omega)]
      exact ⟨_, rfl, fun c hc => ⟨roundAlloc call.firstSize, by simpa using hc.symm, hle,
        roundAlloc_lt _⟩⟩
    · exact ⟨none, rfl, by simp⟩

/-- `callx` with the stub of `call` behind its own, in a buffer of the size. -/
def joined (callx call : Call) (size : ℕ) : Call :=
  { callx with
    allocSize := size
    pkt.pfcFlags := callx.pkt.pfcFlags ||| (call.pkt.pfcFlags &&& pfcFlagLast)
    request.stubAndVerifier := callx.stub ++ call.stub }

lemma appendStub_spec (callx call : Call) {size : ℕ}
    (h : callx.stub.length + call.stub.length ≤ size) :
    appendStub { callx with allocSize := size } call = some (some (joined callx call size)) :=
  if_neg (not_lt.mpr h)

lemma length_le_joinSize (h : callx.stub.length + call.stub.length < 2 ^ 32) :
    callx.stub.length + call.stub.length ≤ joinSize callx call := by
  unfold joinSize
  rw [Nat.mod_eq_of_lt h]
  exact le_max_left ..

/-- A joined fragment for which the buffer has to grow fits in the new one. -/
lemma length_le_roundAlloc (hgrow : callx.allocSize < joinSize callx call)
    (hmax : ¬ env.maxRequestMem < joinSize callx call)
    (hfits : callx.stub ++ call.stub = [] ∨ callx.stub.length + call.stub.length < 2 ^ 32 ∧
      (joinSize callx call ≤ callx.allocSize ∨ Fits env (joinSize callx call))) :
    callx.stub.length + call.stub.length ≤ roundAlloc (joinSize callx call) := by
  rcases hfits with hnil | ⟨hsum, hcap | hbig | hround⟩
  · rw [← List.length_append, hnil]
    exact Nat.zero_le _
  · exact absurd hcap (not_le.mpr hgrow)
  · exact absurd hbig hmax
  · exact (length_le_joinSize hsum).trans (le_roundAlloc hround)

/-- A joined fragment for which the buffer is large enough. -/
lemma length_le_allocSize (hroom : ¬ callx.allocSize < joinSize callx call)
    (hfits : callx.stub ++ call.stub = [] ∨ callx.stub.length + call.stub.length < 2 ^ 32 ∧
      (joinSize callx call ≤ callx.allocSize ∨ Fits env (joinSize callx call))) :
    callx.stub.length + call.stub.length ≤ callx.allocSize := by
  rcases hfits with hnil | ⟨hsum, -⟩
  · rw [← List.length_append, hnil]
    exact Nat.zero_le _
  · exact (length_le_joinSize hsum).trans (not_lt.mp hroom)

lemma joinFragment_spec (hsmall : callx.allocSize < 2 ^ 32)
    (hfits : callx.stub ++ call.stub = [] ∨ callx.stub.length + call.stub.length < 2 ^ 32 ∧
      (joinSize callx call ≤ callx.allocSize ∨ Fits env (joinSize callx call))) :
    ∃ r, joinFragment env p callx call = some r ∧ ∀ c ∈ r, ∃ size, c = joined callx call size ∧
      callx.stub.length + call.stub.length ≤ size ∧ size < 2 ^ 32 := by
  unfold joinFragment
  split
  · exact ⟨none, rfl, by simp⟩
  · split
    · rename_i hgrow
      split
      · exact ⟨none, rfl, by simp⟩
      · rename_i hmax
        split
        · have hle := length_le_roundAlloc hgrow hmax hfits
          rw [if_neg (not_lt.mpr ((Nat.le_add_right ..).trans hle)),
            appendStub_spec callx call hle]
          exact ⟨_, rfl, fun c hc => ⟨_, (Option.mem_some.mp hc).symm, hle, roundAlloc_lt _⟩⟩
        · exact ⟨none, rfl, by simp⟩
    · rename_i hroom
      have hle := length_le_allocSize hroom hfits
      rw [show appendStub callx call = _ from appendStub_spec callx call hle]
      exact ⟨_, rfl, fun c hc => ⟨_, (Option.mem_some.mp hc).symm, hle, hsmall⟩⟩

end Sizes

section Steps

variable {env : Env ν} {s : Processor ν} {p : Pdu}

lemma Pdu.fault_cases (p : Pdu) : p.fault = .fault ∨ p.fault = .error := by
  unfold Pdu.fault
  split
  · exact .inl rfl
  · exact .inr rfl

/-- What a request PDU does to the processor. -/
inductive Taken (env : Env ν) (s : Processor ν) (p : Pdu) : Option (Outcome × Processor ν) → Prop
  | dropped {o : Outcome} : p.request = none → o = .error ∨ o = .other → Taken env s p (some (o, s))
  | refused {pkt : NcacnPacket} {request : Request} {auths : List (AuthContext ν)} :
      p.request = some (pkt, request) → s.authenticate env p pkt request = none →
      Taken env s p (some (p.fault, { s with authList := auths }))
  | taken {call : Call} {auths : List (AuthContext ν)} : s.offered env p = some call →
      Taken env s p (Processor.inputCall env { s with authList := auths } p call)

lemma input_taken (env : Env ν) (s : Processor ν) (hp : p.IsRequest) :
    Taken env s p (s.input env p) := by
  unfold Processor.input
  by_cases hc : p.callAlloc = true
  swap
  · have hn : p.request = none := by
      unfold Pdu.request
      split
      · simp [hc]
      · rfl
    simp only [hc, Bool.not_false, if_true]
    exact .dropped hn (.inl rfl)
  · simp only [hc, Bool.not_true, Bool.false_eq_true, if_false]
    cases hpull : p.pull with
    | none => exact .dropped (by simp [Pdu.request, hpull]) (.inl rfl)
    | some packet =>
      obtain ⟨pkt, payload⟩ := packet
      have htype : pkt.pktType = pktRequest := hp _ hpull
      simp only [htype, bne_self_eq_false, Bool.and_false, Bool.false_eq_true, if_false]
      by_cases hlen : pkt.fragLength.toNat = p.pbuff.length
      swap
      · rw [if_pos hlen]
        refine .dropped ?_ (.inl rfl)
        cases payload <;> simp [Pdu.request, hpull, hlen]
      · rw [if_neg (by simpa using hlen)]
        cases payload with
        | none => exact .dropped (by simp [Pdu.request, hpull]) (.inr rfl)
        | some request =>
          have hreq : p.request = some (pkt, request) := by simp [Pdu.request, hpull, hc, hlen]
          simp only
          split
          · rename_i auths hauth
            exact .refused hreq (congrArg Prod.fst hauth)
          · rename_i i stub auths hauth
            refine .taken ?_
            simp [Processor.offered, hreq, Processor.authenticate, hauth]

end Steps

/-! ### Invariant -/

/-- The fragment that a call stands for when it comes in. -/
def Call.arrival (call : Call) : Arrival :=
  { callId := call.pkt.callId, first := call.pkt.first, last := call.pkt.last
    accepted := some (call.authCtx, call.stub) }

/-- A partial call is made of the fragments of its id, none of which is a last one. -/
structure Part (arrivals : List Arrival) (call : Call) : Prop where
  whole : Reassembled (fragmentsOf arrivals call.pkt.callId) call
  inner : ∀ a ∈ fragmentsOf arrivals call.pkt.callId, a.last = false
  unfinished : call.pkt.last = false
  fits : call.stub.length ≤ call.allocSize
  small : call.allocSize < 2 ^ 32

structure Inv (calls : List Call) (arrivals : List Arrival) : Prop where
  parts : ∀ call ∈ calls, Part arrivals call
  nodup : (calls.map (·.pkt.callId)).Nodup

section Arrivals

variable {arrivals : List Arrival} {calls : List Call} {callx call : Call} {a : Arrival}

lemma fragmentsOf_append (arrivals : List Arrival) (a : Arrival) (callId : UInt32) :
    fragmentsOf (arrivals ++ [a]) callId =
      if a.callId = callId then if a.first then [a] else fragmentsOf arrivals callId ++ [a]
      else fragmentsOf arrivals callId := by
  simp [fragmentsOf]

lemma Part.skip (h : Part arrivals call) (hne : call.pkt.callId ≠ a.callId) :
    Part (arrivals ++ [a]) call := by
  have heq : fragmentsOf (arrivals ++ [a]) call.pkt.callId =
      fragmentsOf arrivals call.pkt.callId := by
    rw [fragmentsOf_append, if_neg hne.symm]
  exact ⟨heq ▸ h.whole, heq ▸ h.inner, h.unfinished, h.fits, h.small⟩

lemma Inv.skip (h : Inv calls arrivals) (hne : ∀ call ∈ calls, call.pkt.callId ≠ a.callId) :
    Inv calls (arrivals ++ [a]) :=
  ⟨fun call hc => (h.parts call hc).skip (hne call hc), h.nodup⟩

lemma Inv.add (h : Inv calls arrivals) (hp : Part arrivals call)
    (hne : ∀ c ∈ calls, c.pkt.callId ≠ call.pkt.callId) : Inv (calls ++ [call]) arrivals := by
  constructor
  · intro c hc
    rcases List.mem_append.mp hc with hc | hc
    · exact h.parts c hc
    · rw [List.mem_singleton.mp hc]
      exact hp
  · rw [List.map_append, List.nodup_append]
    refine ⟨h.nodup, List.nodup_singleton _, ?_⟩
    intro x hx y hy
    obtain ⟨c, hc, rfl⟩ := List.mem_map.mp hx
    rw [List.map_singleton, List.mem_singleton] at hy
    exact hy ▸ hne c hc

/-- The call that is taken out of the list was the only one with its id. -/
lemma Inv.take (h : Inv calls arrivals) {callId : UInt32} {rest : List Call}
    (hget : getFragmentedCall calls callId = some (callx, rest)) :
    callx ∈ calls ∧ callx.pkt.callId = callId ∧ Inv rest arrivals ∧
      ∀ c ∈ rest, c.pkt.callId ≠ callId := by
  unfold getFragmentedCall at hget
  split at hget
  · cases hget
  · rename_i call hfind
    cases hget
    have hid : callx.pkt.callId = callId := by simpa using List.find?_some hfind
    have hmem := List.mem_of_find?_eq_some hfind
    have hsub : (calls.eraseP (·.pkt.callId == callId)).Sublist calls := List.eraseP_sublist ..
    refine ⟨hmem, hid, ⟨fun c hc => h.parts c (hsub.subset hc),
      h.nodup.sublist (hsub.map _)⟩, ?_⟩
    intro c hc hcid
    obtain ⟨c', before, after, hbefore, hc', hcalls, herase⟩ :=
      List.exists_of_eraseP (p := (·.pkt.callId == callId)) hmem (by simpa using hid)
    rw [herase] at hc
    have hn := h.nodup
    rw [hcalls, List.map_append, List.map_cons, List.nodup_append] at hn
    have hc'' : c'.pkt.callId = callId := by simpa using hc'
    rcases List.mem_append.mp hc with hc | hc
    · exact hbefore c hc (by simpa using hcid)
    · exact (List.nodup_cons.mp hn.2.1).1
        (List.mem_map.mpr ⟨c, hc, hcid.trans hc''.symm⟩)

lemma getFragmentedCall_eq_none {callId : UInt32} (h : getFragmentedCall calls callId = none) :
    ∀ c ∈ calls, c.pkt.callId ≠ callId := by
  unfold getFragmentedCall at h
  split at h
  · rename_i hfind
    intro c hc
    simpa using List.find?_eq_none.mp hfind c hc
  · cases h

lemma reassembled_first (arrivals : List Arrival) (hfirst : call.pkt.first = true) (size : ℕ) :
    fragmentsOf (arrivals ++ [call.arrival]) call.pkt.callId = [call.arrival] ∧
      Reassembled [call.arrival] { call with allocSize := size } := by
  constructor
  · exact (fragmentsOf_append ..).trans ((if_pos rfl).trans (if_pos hfirst))
  · refine ⟨⟨call.arrival, rfl, hfirst⟩, ?_, ?_⟩
    · intro a ha
      rw [List.mem_singleton.mp ha]
      exact ⟨_, rfl⟩
    · simp [Call.arrival, Arrival.stub, Call.stub]

lemma joined_last (h : callx.pkt.last = false) (size : ℕ) :
    (joined callx call size).pkt.last = call.pkt.last := by
  simp only [NcacnPacket.last, joined, pfcFlagLast, bne_eq_false_iff_eq] at h ⊢
  have hd : (callx.pkt.pfcFlags ||| call.pkt.pfcFlags &&& 0x02) &&& 0x02 =
      (callx.pkt.pfcFlags &&& 0x02) ||| (call.pkt.pfcFlags &&& 0x02 &&& 0x02) :=
    UInt8.toBitVec_inj.mp BitVec.and_or_distrib_right
  rw [hd, h, UInt8.and_assoc]
  simp

lemma reassembled_joined (h : Part arrivals callx) (hid : callx.pkt.callId = call.pkt.callId)
    (hfirst : call.pkt.first = false) (hctx : call.authCtx = callx.authCtx) (size : ℕ) :
    fragmentsOf (arrivals ++ [call.arrival]) callx.pkt.callId =
        fragmentsOf arrivals callx.pkt.callId ++ [call.arrival] ∧
      Reassembled (fragmentsOf arrivals callx.pkt.callId ++ [call.arrival])
        (joined callx call size) := by
  constructor
  · exact (fragmentsOf_append ..).trans
      ((if_pos hid.symm).trans (if_neg (by simp [Call.arrival, hfirst])))
  · obtain ⟨⟨a, ha, hafirst⟩, haccepted, hstub⟩ := h.whole
    refine ⟨⟨a, ?_, hafirst⟩, ?_, ?_⟩
    · rw [List.head?_append, Option.mem_def.mp ha]
      rfl
    · intro b hb
      rcases List.mem_append.mp hb with hb | hb
      · exact haccepted b hb
      · rw [List.mem_singleton.mp hb]
        exact ⟨call.stub, by rw [← show call.authCtx = (joined callx call size).authCtx from hctx]; rfl⟩
    · rw [List.flatMap_append, ← hstub]
      simp [joined, Call.arrival, Arrival.stub, Call.stub]

end Arrivals

/-! ### Steps -/

/-- What a request leaves behind, with the arrivals up to it. -/
structure Kept (arrivals : List Arrival) (callId : UInt32) (r : Outcome × Processor ν) : Prop where
  inv : Inv r.2.fragmentedList arrivals
  executed : ∀ call, r.1 = .process call →
    Reassembled (fragmentsOf arrivals call.pkt.callId) call ∧
      Complete (fragmentsOf arrivals call.pkt.callId)
  rejected : r.1 = .fault → ∀ call ∈ r.2.fragmentedList, call.pkt.callId ≠ callId

section Kept

variable {env : Env ν} {s : Processor ν} {p : Pdu} {arrivals : List Arrival} {call : Call}

lemma offered_spec (h : s.offered env p = some call) :
    ∃ request, p.request = some (call.pkt, request) ∧
      s.authenticate env p call.pkt request = some (call.authCtx, call.stub) ∧
      s.arrivals env p = [call.arrival] ∧ call.stub.length < 2 ^ 16 := by
  obtain ⟨⟨pkt, request⟩, hreq, h⟩ := Option.bind_eq_some_iff.mp h
  obtain ⟨⟨i, stub⟩, hauth, h⟩ := Option.bind_eq_some_iff.mp h
  cases h
  refine ⟨request, hreq, hauth, ?_, ?_⟩
  · simp [Processor.arrivals, hreq, hauth, Call.arrival, Call.stub]
  · have hle : stub.length ≤ request.stubAndVerifier.length := authRequest_length hauth
    have hlt : request.stubAndVerifier.length < 2 ^ 16 := by
      unfold Pdu.request at hreq
      split at hreq
      · rename_i hpull
        split at hreq <;> cases hreq
        exact Pdu.pull_stub_length hpull
      · cases hreq
    exact lt_of_le_of_lt hle hlt

lemma kept_fault (hinv : Inv s.fragmentedList arrivals) {callId : UInt32}
    (hne : ∀ c ∈ s.fragmentedList, c.pkt.callId ≠ callId) : Kept arrivals callId (p.fault, s) := by
  refine ⟨hinv, ?_, fun _ => hne⟩
  intro call heq
  rcases p.fault_cases with hf | hf <;> simp [hf] at heq

lemma kept_process (hinv : Inv s.fragmentedList arrivals)
    (hwhole : Reassembled (fragmentsOf arrivals call.pkt.callId) call)
    (hcomplete : Complete (fragmentsOf arrivals call.pkt.callId)) {callId : UInt32} :
    Kept arrivals callId (.process call, s) := by
  refine ⟨hinv, ?_, by simp⟩
  intro call' heq
  cases heq
  exact ⟨hwhole, hcomplete⟩

lemma kept_keepOrProcess (hinv : Inv s.fragmentedList arrivals)
    (hne : ∀ c ∈ s.fragmentedList, c.pkt.callId ≠ call.pkt.callId)
    (hwhole : Reassembled (fragmentsOf arrivals call.pkt.callId) call)
    (hinner : ∀ a ∈ (fragmentsOf arrivals call.pkt.callId).dropLast, a.last = false)
    (hlast : ∃ a ∈ (fragmentsOf arrivals call.pkt.callId).getLast?, a.last = call.pkt.last)
    (hfits : call.stub.length ≤ call.allocSize) (hsmall : call.allocSize < 2 ^ 32)
    {callId : UInt32} : Kept arrivals callId (s.keepOrProcess call) := by
  obtain ⟨a, ha, halast⟩ := hlast
  unfold Processor.keepOrProcess
  split
  · rename_i hl
    exact kept_process hinv hwhole ⟨⟨a, ha, halast.trans hl⟩, hinner⟩
  · rename_i hl
    have hl' : call.pkt.last = false := by simpa using hl
    split
    · exact ⟨hinv, by simp, by simp⟩
    · refine ⟨hinv.add ⟨hwhole, ?_, hl', hfits, hsmall⟩ hne, by simp, by simp⟩
      intro b hb
      rw [← List.dropLast_append_getLast? a ha] at hb
      rcases List.mem_append.mp hb with hb | hb
      · exact hinner b hb
      · rw [List.mem_singleton.mp hb, halast, hl']

lemma kept_inputCall (hinv : Inv s.fragmentedList arrivals) (hstub : call.stub.length < 2 ^ 16)
    (hjoins : ∀ callx ∈ s.fragmentedList, callx.pkt.callId = call.pkt.callId →
      call.pkt.first = false ∧ call.authCtx = callx.authCtx)
    (hfirst : call.pkt.first = true → call.pkt.last = false →
      call.stub = [] ∨ Fits env call.firstSize)
    (hjoin : ∀ callx ∈ s.fragmentedList, callx.pkt.callId = call.pkt.callId →
      callx.stub ++ call.stub = [] ∨ callx.stub.length + call.stub.length < 2 ^ 32 ∧
        (joinSize callx call ≤ callx.allocSize ∨ Fits env (joinSize callx call))) :
    ∃ r, s.inputCall env p call = some r ∧
      Kept (arrivals ++ [call.arrival]) call.pkt.callId r := by
  unfold Processor.inputCall
  by_cases hf : call.pkt.first = true
  · -- no partial call has the id
    have hne : ∀ c ∈ s.fragmentedList, c.pkt.callId ≠ call.pkt.callId := by
      intro c hc hid
      simp [hf] at hjoins
      exact hjoins c hc hid
    have hinv' : Inv s.fragmentedList (arrivals ++ [call.arrival]) := hinv.skip hne
    rw [if_pos hf]
    by_cases hl : call.pkt.last = true
    · obtain ⟨hfrag, hwhole⟩ := reassembled_first arrivals hf call.allocSize
      rw [if_pos hl]
      refine ⟨_, rfl, kept_process hinv' ?_ ?_⟩ <;> rw [hfrag]
      · exact hwhole
      · exact ⟨⟨call.arrival, rfl, hl⟩, by simp⟩
    · rw [if_neg hl]
      obtain ⟨r, hr, hspec⟩ :=
        firstFragment_spec (p := p) hstub (hfirst hf (by simpa using hl))
      rw [hr]
      cases r with
      | none => exact ⟨_, rfl, kept_fault hinv' hne⟩
      | some c =>
        obtain ⟨size, rfl, hfits, hsmall⟩ := hspec c rfl
        obtain ⟨hfrag, hwhole⟩ := reassembled_first arrivals hf size
        refine ⟨_, rfl, ?_⟩
        apply kept_keepOrProcess hinv'
        · exact hne
        · exact hfrag.symm ▸ hwhole
        · simp [hfrag]
        · exact ⟨call.arrival, by simp [hfrag], rfl⟩
        · exact hfits
        · exact hsmall
  · rw [if_neg hf]
    cases hget : getFragmentedCall s.fragmentedList call.pkt.callId with
    | none =>
      have hne := getFragmentedCall_eq_none hget
      exact ⟨_, rfl, kept_fault (hinv.skip hne) hne⟩
    | some found =>
      obtain ⟨callx, calls⟩ := found
      obtain ⟨hmem, hid, hrest, hne⟩ := hinv.take hget
      have hpart := hinv.parts callx hmem
      have hinv' : Inv calls (arrivals ++ [call.arrival]) := hrest.skip hne
      obtain ⟨r, hr, hspec⟩ :=
        joinFragment_spec (p := p) hpart.small (hjoin callx hmem hid)
      simp only [hr]
      cases r with
      | none => exact ⟨_, rfl, kept_fault (s := { s with fragmentedList := calls }) hinv' hne⟩
      | some c =>
        obtain ⟨size, rfl, hfits, hsmall⟩ := hspec c rfl
        obtain ⟨hfrag, hwhole⟩ := reassembled_joined hpart hid (by simpa using hf)
          (hjoins callx hmem hid).2 size
        refine ⟨_, rfl, kept_keepOrProcess (s := { s with fragmentedList := calls }) hinv'
          (fun c hc => hid ▸ hne c hc) ?_ ?_ ?_ ?_ hsmall⟩
        · exact hfrag ▸ hwhole
        · change ∀ a ∈ (fragmentsOf _ callx.pkt.callId).dropLast, a.last = false
          rw [hfrag, List.dropLast_concat]
          exact hpart.inner
        · change ∃ a ∈ (fragmentsOf _ callx.pkt.callId).getLast?, _
          rw [hfrag, List.getLast?_concat]
          exact ⟨call.arrival, rfl, (joined_last hpart.unfinished size).symm⟩
        · simpa [joined, Call.stub] using hfits

end Kept

/-! ### Runs -/

section Runs

variable {env : Env ν}

lemma kept_input {s : Processor ν} {p : Pdu} {arrivals : List Arrival}
    (hinv : Inv s.fragmentedList arrivals) (hp : p.IsRequest) (hm : Meets env s p) :
    ∃ r, s.input env p = some r ∧
      (∃ callId, Kept (arrivals ++ s.arrivals env p) callId r) ∧
      ∀ pkt request, p.request = some (pkt, request) →
        Kept (arrivals ++ s.arrivals env p) pkt.callId r := by
  have htaken := input_taken env s hp
  generalize s.input env p = input at htaken
  cases htaken with
  | @dropped o hreq ho =>
    have harr : arrivals ++ s.arrivals env p = arrivals := by
      simp [Processor.arrivals, hreq]
    refine ⟨_, rfl, ⟨0, ?_⟩, by simp [hreq]⟩
    rw [harr]
    refine ⟨hinv, ?_, ?_⟩ <;> rcases ho with rfl | rfl <;> simp
  | @refused pkt request auths hreq hauth =>
    -- by the condition no partial call waits for a fragment that is refused
    have hne : ∀ c ∈ s.fragmentedList, c.pkt.callId ≠ pkt.callId := by
      intro c hc hid
      obtain ⟨-, stub, hstub⟩ := hm.joins pkt request hreq c hc hid
      rw [hauth] at hstub
      cases hstub
    have hkept : Kept (arrivals ++ s.arrivals env p) pkt.callId
        (p.fault, { s with authList := auths }) := by
      refine kept_fault ?_ hne
      simp only [Processor.arrivals, hreq]
      exact hinv.skip hne
    refine ⟨_, rfl, ⟨_, hkept⟩, ?_⟩
    intro pkt' request' hreq'
    rw [hreq] at hreq'
    cases hreq'
    exact hkept
  | @taken call auths hcall =>
    obtain ⟨request, hreq, hauth, harr, hstub⟩ := offered_spec hcall
    have hjoins : ∀ callx ∈ s.fragmentedList, callx.pkt.callId = call.pkt.callId →
        call.pkt.first = false ∧ call.authCtx = callx.authCtx := by
      intro callx hmem hid
      obtain ⟨hf, stub, hstub⟩ := hm.joins _ _ hreq callx hmem hid
      rw [hauth, Option.some.injEq, Prod.mk.injEq] at hstub
      exact ⟨hf, hstub.1⟩
    obtain ⟨r, hr, hkept⟩ := kept_inputCall (p := p)
      (s := { s with authList := auths }) hinv hstub hjoins (hm.firstFits call hcall)
      (hm.joinFits call hcall)
    rw [harr]
    refine ⟨r, hr, ⟨_, hkept⟩, ?_⟩
    intro pkt' request' hreq'
    rw [hreq] at hreq'
    cases hreq'
    exact hkept

/-- **Whatever requests came in under the condition, the next one is executed with exactly the
fragments of its call.** -/
theorem sound_of_run {auths : List (AuthContext ν)} {pdus : List Pdu} {c : Connection ν}
    (h : Run (fun c p => c.Admits p ∧ Meets env c.processor p) (Connection.step env)
      (start auths) pdus c) {p : Pdu} (hp : c.Admits p) (hm : Meets env c.processor p) :
    Sound env c p := by
  have hinv : Inv c.processor.fragmentedList c.arrivals := by
    refine h.invariant (I := fun c => Inv c.processor.fragmentedList c.arrivals) ?_
      ⟨by simp [start], by simp [start]⟩
    rintro c p c' hc ⟨⟨-, hp⟩, hm⟩ ⟨outcome, s, hs, rfl⟩
    obtain ⟨r, hr, ⟨_, hkept⟩, -⟩ := kept_input hc hp hm
    rw [hr] at hs
    cases hs
    exact hkept.inv
  obtain ⟨r, hr, ⟨_, hkept⟩, hreq⟩ := kept_input hinv hp.2 hm
  refine ⟨by simp [hr], ?_, ?_⟩
  · intro call s hs
    rw [hr] at hs
    cases hs
    exact hkept.executed call rfl
  · intro s pkt request hs hpkt
    rw [hr] at hs
    cases hs
    exact (hreq pkt request hpkt).rejected rfl

end Runs

/-! ### Fragments on the Wire -/

/-- A fragment in little endian, of the call 1. -/
def fragment (pfcFlags : UInt8) (authLength : UInt8) (stub : List UInt8) : List UInt8 :=
  [5, 0, pktRequest, pfcFlags, drepLe, 0, 0, 0, UInt8.ofNat (24 + stub.length), 0, authLength, 0,
    1, 0, 0, 0, 0, 0, 0, 0, 0, 0, 0, 0] ++ stub

def firstPdu : Pdu := { pbuff := fragment pfcFlagFirst 0 [0x41], length_lt := by decide }

/-- Its trailer names a context that does not exist. -/
def foreignPdu : Pdu :=
  { pbuff := fragment 0 4 ([0x42, 0x42, 0x42, 0x42] ++ [10, 5, 0, 0, 7, 0, 0, 0] ++ [1, 2, 3, 4])
    length_lt := by decide }

def lastPdu : Pdu := { pbuff := fragment pfcFlagLast 0 [0x43], length_lt := by decide }

/-- No signature fits; the limit is the default one. -/
def plainEnv : Env Unit :=
  { ntlmssp := { unsealPacket := fun _ _ _ _ => (none, ()), checkPacket := fun _ _ _ _ => (false, ()) }
    maxRequestMem := 64 * 1024 * 1024 }

/-- The context of a bind without authentication. -/
def emptyContext : AuthContext Unit :=
  { authContextId := 0, authLevel := authLevelEmpty, ntlmssp := () }

lemma isRequest_of_pull {p : Pdu} {packet : NcacnPacket × Option Request}
    (h : p.pull = some packet) (htype : packet.1.pktType = pktRequest) : p.IsRequest := by
  intro packet' hp
  rw [Option.mem_def, h] at hp
  exact Option.some.inj hp ▸ htype

theorem not_sound_of_run : ¬ ∀ (env : Env Unit) (auths : List (AuthContext Unit))
    (pdus : List Pdu) (c : Connection Unit),
    Run Connection.Admits (Connection.step env) (start auths) pdus c →
      ∀ p, c.Admits p → Sound env c p := by
  intro h
  have hfirst : firstPdu.IsRequest := isRequest_of_pull (by rfl) (by rfl)
  have hforeign : foreignPdu.IsRequest := isRequest_of_pull (by rfl) (by rfl)
  have hlast : lastPdu.IsRequest := isRequest_of_pull (by rfl) (by rfl)
  have hsound := h plainEnv [emptyContext] [firstPdu, foreignPdu] _
    (.cons ⟨rfl, hfirst⟩ ⟨_, _, rfl, rfl⟩ (.cons ⟨rfl, hforeign⟩ ⟨_, _, rfl, rfl⟩ (.nil _)))
    lastPdu ⟨rfl, hlast⟩
  have hwhole := (hsound.executed _ _ rfl).1
  obtain ⟨stub, hstub⟩ := hwhole.accepted
    { callId := 1, first := false, last := false, accepted := none } (.tail _ (.head _))
  cases hstub

theorem sound_of_run_two : ∃ c : Connection Unit, Sound plainEnv c lastPdu ∧
    ∃ call s, c.processor.input plainEnv lastPdu = some (.process call, s) ∧
      call.stub = [0x41, 0x43] := by
  have hfirst : firstPdu.IsRequest := isRequest_of_pull (by rfl) (by rfl)
  have hlast : lastPdu.IsRequest := isRequest_of_pull (by rfl) (by rfl)
  have hm : Meets plainEnv (start [emptyContext]).processor firstPdu := by
    refine ⟨?_, ?_, ?_⟩
    · intro _ _ _ callx hc
      cases hc
    swap
    · intro _ _ callx hc
      cases hc
    intro call hcall _ _
    cases hcall
    exact .inr (.inr (by decide))
  refine ⟨_, sound_of_run (.cons ⟨⟨rfl, hfirst⟩, hm⟩ ⟨_, _, rfl, rfl⟩ (.nil _)) ⟨rfl, hlast⟩
    ⟨?_, ?_, ?_⟩, _, _, rfl, rfl⟩
  · intro pkt request hreq callx hc _
    cases hreq
    rw [List.mem_singleton.mp hc]
    exact ⟨rfl, _, rfl⟩
  · intro call hcall hf
    cases hcall
    cases hf
  · intro call hcall callx hc _
    cases hcall
    rw [List.mem_singleton.mp hc]
    exact .inr ⟨by decide, .inl (by decide)⟩

end SteepSystem.PduProcessor
