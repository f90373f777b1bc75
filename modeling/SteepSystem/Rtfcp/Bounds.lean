import SteepSystem.Rtfcp.RoundTrip

/-!
What `rtfcp_uncompress` reads and writes. The output is checked against the size that the header
gives and never against the capacity of the caller, both checks let the position of the end
through, and the position of the input is looked at after a literal only.
-/

namespace SteepSystem.Rtfcp.Bounds

open SteepSystem.Rtfcp.Model SteepSystem.Rtfcp.RoundTrip

/-- Where the call can be: before the header, at the test of the outer loop, and at a bit of a
control byte. -/
inductive Stage
  | header
  | loop (state : DecompressionState)
  | bits (control : UInt8) (bitmaskPos : ℕ) (state : DecompressionState)

variable (pb : ℕ → UInt8) (inSize : ℕ) (stack : ℕ → UInt8) (plength : ℕ)

/-- The header is taken, with this magic. -/
def Headed (magic : ℕ) : Prop := 4 * 4 ≤ inSize ∧ ival pb 0 = inSize - 4 ∧ ival pb 8 = magic

instance (magic : ℕ) : Decidable (Headed pb inSize magic) :=
  inferInstanceAs (Decidable (_ ∧ _ ∧ _))

def start : DecompressionState :=
  ⟨initDict stack, RTF_INITLENGTH, RTF_HEADERLENGTH, (ival pb 4 + RTF_HEADERLENGTH + 4) % 2 ^ 32, []⟩

/-- The bit is set: a reference follows, else a literal. -/
def IsReference (control : UInt8) (bitmaskPos : ℕ) : Prop :=
  control.toNat &&& (1 <<< bitmaskPos) ≠ 0

instance (control : UInt8) (bitmaskPos : ℕ) : Decidable (IsReference control bitmaskPos) :=
  inferInstanceAs (Decidable (_ ≠ _))

/-- Where the next byte goes. -/
def outPos (state : DecompressionState) : ℕ := state.output.length % 2 ^ 32

/-- What the next reference says, and the state behind it. -/
def nextLength (state : DecompressionState) : ℕ :=
  (rtfcpGetNextDictionaryReference pb inSize state).1.1
def nextOffset (state : DecompressionState) : ℕ :=
  (rtfcpGetNextDictionaryReference pb inSize state).1.2
def afterReference (state : DecompressionState) : DecompressionState :=
  (rtfcpGetNextDictionaryReference pb inSize state).2

/-- The reference that ends the stream. -/
def IsEnd (state : DecompressionState) : Prop :=
  nextOffset pb inSize state = (afterReference pb inSize state).dictWriteoffset

instance (state : DecompressionState) : Decidable (IsEnd pb inSize state) :=
  inferInstanceAs (Decidable (_ = _))

def literalAdded (state : DecompressionState) : DecompressionState :=
  let (c, state) := rtfcpGetNextByte pb inSize state
  rtfcpAppendToDictionary (rtfcpAppendToOutput state c) c

/-- The stages that a call comes to. -/
inductive Reached : Stage → Prop
  | header : Reached .header
  | compressed : Headed pb inSize RTF_COMPRESSED → Reached (.loop (start pb stack))
  | control {state : DecompressionState} : Reached (.loop state) →
      (state.inPos + 1) % 2 ^ 32 < inSize →
      Reached (.bits (rtfcpGetNextByte pb inSize state).1 0 (rtfcpGetNextByte pb inSize state).2)
  | reference {control : UInt8} {k : ℕ} {state state' : DecompressionState} :
      Reached (.bits control k state) → k < 8 → IsReference control k → ¬ IsEnd pb inSize state →
      copyReference (nextOffset pb inSize state) (nextLength pb inSize state) 0
        (afterReference pb inSize state) = some state' →
      Reached (.bits control (k + 1) state')
  | literal {control : UInt8} {k : ℕ} {state : DecompressionState} :
      Reached (.bits control k state) → k < 8 → ¬ IsReference control k →
      outPos state ≤ state.outSize → (rtfcpGetNextByte pb inSize state).2.inPos ≤ inSize →
      Reached (.bits control (k + 1) (literalAdded pb inSize state))
  | turn {control : UInt8} {state : DecompressionState} :
      Reached (.bits control 8 state) → Reached (.loop state)

/-- The index that `rtfcp_get_next_byte` reads. -/
def byteRead (state : DecompressionState) : List ℕ :=
  if state.inPos > inSize then [] else [state.inPos]

/-- The indices at which the loop over a reference writes. -/
def copyWrites (outSize : ℕ) : ℕ → ℕ → List ℕ
  | 0, _ => []
  | n + 1, written =>
    if written % 2 ^ 32 > outSize then []
    else written % 2 ^ 32 :: copyWrites outSize n (written + 1)

def reads : Stage → List ℕ
  | .header =>
    if inSize < 4 * 4 then []
    else
      List.range (4 * 4) ++
        if Headed pb inSize RTF_UNCOMPRESSED ∧ inSize - 4 * 4 ≤ plength then
          (List.range (inSize - 4 * 4)).map (4 * 4 + ·)
        else []
  | .loop state => if (state.inPos + 1) % 2 ^ 32 < inSize then byteRead inSize state else []
  | .bits control k state =>
    if 8 ≤ k then []
    else if IsReference control k then
      byteRead inSize state ++ byteRead inSize (rtfcpGetNextByte pb inSize state).2
    else if outPos state > state.outSize then []
    else byteRead inSize state

def writes : Stage → List ℕ
  | .header =>
    if Headed pb inSize RTF_UNCOMPRESSED ∧ inSize - 4 * 4 ≤ plength then
      List.range (inSize - 4 * 4)
    else []
  | .loop _ => []
  | .bits control k state =>
    if 8 ≤ k then []
    else if IsReference control k then
      if IsEnd pb inSize state then []
      else copyWrites state.outSize (nextLength pb inSize state) state.output.length
    else if outPos state > state.outSize then []
    else if (rtfcpGetNextByte pb inSize state).2.inPos > inSize then []
    else [outPos state]

/-- The call reads within the input, writes within the capacity, and after `TRUE` `*plength` is
the number of the bytes written. -/
structure Bounded : Prop where
  reads : ∀ s, Reached pb inSize stack s → ∀ i ∈ reads pb inSize plength s, i < inSize
  writes : ∀ s, Reached pb inSize stack s → ∀ j ∈ writes pb inSize plength s, j < plength
  length : ∀ output n, rtfcpUncompress pb inSize stack plength = (true, output, n) →
    n = output.length

/-- What a stage has to meet. Raw text fills the capacity if there is room for it. The loop does
not stop without an end reference unless the capacity is full, and goes on within the input
only. A token lies within the input and puts out no more than fits, as far as the size of the
header lets it. -/
def Fits : Stage → Prop
  | .header => Headed pb inSize RTF_UNCOMPRESSED → plength ≤ inSize - 4 * 4
  | .loop state =>
    if (state.inPos + 1) % 2 ^ 32 < inSize then state.inPos < inSize
    else state.output.length = plength
  | .bits control k state =>
    if 8 ≤ k then True
    else if IsReference control k then
      state.inPos + 1 < inSize ∧
        if IsEnd pb inSize state then state.output.length < 2 ^ 32
        else ∀ i < nextLength pb inSize state, outPos state + i ≤ state.outSize →
          outPos state + i < plength
    else
      outPos state ≤ state.outSize → state.inPos < inSize ∧ outPos state < plength

variable {pb inSize stack plength}
variable {state state' : DecompressionState}

@[simp] lemma nextByte_output : (rtfcpGetNextByte pb inSize state).2.output = state.output := by
  rw [rtfcpGetNextByte]
  split_ifs <;> rfl

@[simp] lemma nextByte_outSize : (rtfcpGetNextByte pb inSize state).2.outSize = state.outSize := by
  rw [rtfcpGetNextByte]
  split_ifs <;> rfl

variable (pb) in
lemma nextByte_inPos (h : state.inPos ≤ inSize) :
    (rtfcpGetNextByte pb inSize state).2.inPos = state.inPos + 1 := by
  rw [rtfcpGetNextByte, if_neg (by omega)]

lemma afterReference_def : afterReference pb inSize state =
    (rtfcpGetNextByte pb inSize (rtfcpGetNextByte pb inSize state).2).2 := rfl

@[simp] lemma afterReference_output : (afterReference pb inSize state).output = state.output := by
  rw [afterReference_def, nextByte_output, nextByte_output]

@[simp] lemma afterReference_outSize :
    (afterReference pb inSize state).outSize = state.outSize := by
  rw [afterReference_def, nextByte_outSize, nextByte_outSize]

lemma afterReference_inPos (h : state.inPos + 1 ≤ inSize) :
    (afterReference pb inSize state).inPos = state.inPos + 2 := by
  have hnext := nextByte_inPos pb (show state.inPos ≤ inSize by omega)
  rw [afterReference_def, nextByte_inPos pb (by omega), hnext]

lemma copyReference_fields {offset n i : ℕ} (h : copyReference offset n i state = some state') :
    state'.inPos = state.inPos ∧ state'.outSize = state.outSize := by
  induction n generalizing i state with
  | zero =>
    cases h
    exact ⟨rfl, rfl⟩
  | succ n ih =>
    rw [copyReference] at h
    split_ifs at h
    have hrest := ih h
    exact hrest

/-- The size that the header gives is looked at all the way. -/
def Stage.OutSize : Stage → Prop
  | .header => True
  | .loop state => state.outSize < 2 ^ 32
  | .bits _ _ state => state.outSize < 2 ^ 32

lemma Reached.outSize {s : Stage} (h : Reached pb inSize stack s) : s.OutSize := by
  induction h with
  | header => trivial
  | compressed => exact Nat.mod_lt _ (by norm_num)
  | control _ _ ih => rwa [Stage.OutSize, nextByte_outSize]
  | reference _ _ _ _ hcopy ih =>
    rw [Stage.OutSize, (copyReference_fields hcopy).2, afterReference_outSize]
    exact ih
  | literal _ _ _ _ _ ih =>
    show (rtfcpGetNextByte pb inSize _).2.outSize < 2 ^ 32
    rwa [nextByte_outSize]
  | turn _ ih => exact ih

/-- The position of the input is not behind its end. -/
def Stage.Inside (inSize : ℕ) : Stage → Prop
  | .header => True
  | .loop state => state.inPos ≤ inSize
  | .bits _ _ state => state.inPos ≤ inSize

/-- The part of a stage's condition that is about the input. -/
def Stage.Reads (inSize : ℕ) : Stage → Prop
  | .header => True
  | .loop state => (state.inPos + 1) % 2 ^ 32 < inSize → state.inPos < inSize
  | .bits control k state =>
    k < 8 → if IsReference control k then state.inPos + 1 < inSize
      else outPos state ≤ state.outSize → state.inPos < inSize

lemma byteRead_lt_iff (h : state.inPos ≤ inSize) :
    (∀ i ∈ byteRead inSize state, i < inSize) ↔ state.inPos < inSize := by
  rw [byteRead, if_neg (by omega), List.forall_mem_singleton]

lemma reads_lt_iff {s : Stage} (h : s.Inside inSize) :
    (∀ i ∈ reads pb inSize plength s, i < inSize) ↔ s.Reads inSize := by
  cases s with
  | header =>
    refine iff_of_true (fun i hi => ?_) trivial
    rw [reads] at hi
    split_ifs at hi with hshort hplain
    · cases hi
    · rcases List.mem_append.mp hi with hi | hi
      · have := List.mem_range.mp hi
        omega
      · obtain ⟨j, hj, rfl⟩ := List.mem_map.mp hi
        have := List.mem_range.mp hj
        omega
    · rw [List.append_nil] at hi
      have := List.mem_range.mp hi
      omega
  | loop state =>
    rw [reads, Stage.Reads]
    by_cases htest : (state.inPos + 1) % 2 ^ 32 < inSize
    · rw [if_pos htest, byteRead_lt_iff h]
      exact ⟨fun h _ => h, fun h => h htest⟩
    · rw [if_neg htest]
      exact iff_of_true (by simp) fun h => absurd h htest
  | bits control k state =>
    rw [reads, Stage.Reads]
    by_cases hk : 8 ≤ k
    · rw [if_pos hk]
      exact iff_of_true (by simp) fun h => absurd h (by omega)
    · rw [if_neg hk, forall_prop_of_true (by omega)]
      by_cases href : IsReference control k
      · rw [if_pos href, if_pos href, List.forall_mem_append, byteRead_lt_iff h]
        constructor
        · rintro ⟨h1, h2⟩
          have hnext := nextByte_inPos pb h
          rwa [byteRead_lt_iff (by omega), hnext] at h2
        · intro h2
          have hnext := nextByte_inPos pb h
          rw [byteRead_lt_iff (by omega)]
          omega
      · rw [if_neg href, if_neg href]
        by_cases hover : outPos state > state.outSize
        · rw [if_pos hover]
          exact iff_of_true (by simp) fun h => by omega
        · rw [if_neg hover, byteRead_lt_iff h, forall_prop_of_true (by omega)]

/-- Safe reads up to here leave the position within the input. -/
lemma Reached.inside (hreads : ∀ s, Reached pb inSize stack s → s.Inside inSize → s.Reads inSize)
    {s : Stage} (h : Reached pb inSize stack s) : s.Inside inSize := by
  induction h with
  | header => trivial
  | compressed hh => exact hh.1
  | control hs htest ih =>
    have hlt := hreads _ hs ih htest
    rw [Stage.Inside, nextByte_inPos pb ih]
    exact hlt
  | reference hs hk href _ hcopy ih =>
    have hlt := hreads _ hs ih hk
    rw [if_pos href] at hlt
    rw [Stage.Inside, (copyReference_fields hcopy).1, afterReference_inPos (by omega)]
    exact hlt
  | literal _ _ _ _ hin _ => exact hin
  | turn _ ih => exact ih

variable (pb inSize stack) in
/-- The result of the loop is the one from this stage on. -/
def Stage.Resumes : Stage → Prop
  | .header => True
  | .loop state => ∃ fuel, inSize ≤ state.inPos + fuel ∧
      uncompressLoop pb inSize inSize (start pb stack) = uncompressLoop pb inSize fuel state
  | .bits control k state => k ≤ 8 ∧ ∃ fuel, inSize ≤ state.inPos + fuel ∧
      uncompressLoop pb inSize inSize (start pb stack) = resume pb inSize fuel control k state

lemma controlLoop_succ (control : UInt8) (n k : ℕ) :
    controlLoop pb inSize control (n + 1) k state =
      if IsReference control k then
        if IsEnd pb inSize state then
          .ret true (afterReference pb inSize state).output
            (some (outPos (afterReference pb inSize state)))
        else
          match copyReference (nextOffset pb inSize state) (nextLength pb inSize state) 0
            (afterReference pb inSize state) with
          | none => .ret false (afterReference pb inSize state).output none
          | some state => controlLoop pb inSize control n (k + 1) state
      else
        if outPos state > state.outSize then .ret false state.output none
        else if (rtfcpGetNextByte pb inSize state).2.inPos > inSize then
          .ret false (rtfcpGetNextByte pb inSize state).2.output none
        else controlLoop pb inSize control n (k + 1) (literalAdded pb inSize state) := rfl

lemma resume_reference {fuel k : ℕ} {control : UInt8} (hk : k < 8)
    (href : IsReference control k) (hend : ¬ IsEnd pb inSize state)
    (hcopy : copyReference (nextOffset pb inSize state) (nextLength pb inSize state) 0
      (afterReference pb inSize state) = some state') :
    resume pb inSize fuel control k state = resume pb inSize fuel control (k + 1) state' := by
  have hturns : 8 - k = (8 - (k + 1)) + 1 := by omega
  rw [resume, hturns, controlLoop_succ, if_pos href, if_neg hend, hcopy]
  rfl

lemma resume_literal {fuel k : ℕ} {control : UInt8} (hk : k < 8)
    (href : ¬ IsReference control k) (hout : outPos state ≤ state.outSize)
    (hin : (rtfcpGetNextByte pb inSize state).2.inPos ≤ inSize) :
    resume pb inSize fuel control k state =
      resume pb inSize fuel control (k + 1) (literalAdded pb inSize state) := by
  have hturns : 8 - k = (8 - (k + 1)) + 1 := by omega
  rw [resume, hturns, controlLoop_succ, if_neg href, if_neg (by omega), if_neg (by omega)]
  rfl

lemma Reached.resumes (hreads : ∀ s, Reached pb inSize stack s → s.Inside inSize → s.Reads inSize)
    {s : Stage} (h : Reached pb inSize stack s) : s.Resumes pb inSize stack := by
  induction h with
  | header => trivial
  | compressed _ => exact ⟨inSize, by omega, rfl⟩
  | @control state hs htest ih =>
    obtain ⟨fuel, hfuel, heq⟩ := ih
    have hin := hs.inside hreads
    have hlt := hreads _ hs hin htest
    obtain ⟨fuel, rfl⟩ : ∃ f, fuel = f + 1 := ⟨fuel - 1, by omega⟩
    refine ⟨by norm_num, fuel, ?_, ?_⟩
    · rw [nextByte_inPos pb hin]
      omega
    · rw [heq, uncompressLoop, if_pos htest]
      rfl
  | @reference control k state state' hs hk href hend hcopy ih =>
    obtain ⟨-, fuel, hfuel, heq⟩ := ih
    have hlt := hreads _ hs (hs.inside hreads) hk
    rw [if_pos href] at hlt
    refine ⟨hk, fuel, ?_, heq.trans (resume_reference hk href hend hcopy)⟩
    rw [(copyReference_fields hcopy).1, afterReference_inPos (by omega)]
    omega
  | @literal control k state hs hk href hout hin ih =>
    obtain ⟨-, fuel, hfuel, heq⟩ := ih
    refine ⟨hk, fuel, ?_, heq.trans (resume_literal hk href hout hin)⟩
    have hle := hs.inside hreads
    show inSize ≤ (rtfcpGetNextByte pb inSize state).2.inPos + fuel
    rw [nextByte_inPos pb hle]
    have hle' : inSize ≤ state.inPos + fuel := hfuel
    omega
  | turn _ ih =>
    obtain ⟨-, fuel, hfuel, heq⟩ := ih
    exact ⟨fuel, hfuel, heq⟩

variable (pb inSize stack plength) in
/-- What a stage that returns has to meet. -/
def Stage.Returns : Stage → Prop
  | .header => Headed pb inSize RTF_UNCOMPRESSED → plength ≤ inSize - 4 * 4
  | .loop state => ¬ (state.inPos + 1) % 2 ^ 32 < inSize → state.output.length = plength
  | .bits control k state => k < 8 → IsReference control k → IsEnd pb inSize state →
      state.output.length < 2 ^ 32

lemma Fits.reads {s : Stage} (h : Fits pb inSize plength s) : s.Reads inSize := by
  cases s with
  | header => trivial
  | loop state =>
    intro htest
    rwa [Fits, if_pos htest] at h
  | bits control k state =>
    intro hk
    rw [Fits, if_neg (by omega)] at h
    by_cases href : IsReference control k
    · rw [if_pos href] at h ⊢
      exact h.1
    · rw [if_neg href] at h ⊢
      exact fun hout => (h hout).1

lemma Fits.returns {s : Stage} (h : Fits pb inSize plength s) : s.Returns pb inSize plength := by
  cases s with
  | header => exact h
  | loop state =>
    intro htest
    rwa [Fits, if_neg htest] at h
  | bits control k state =>
    intro hk href hend
    rw [Fits, if_neg (by omega), if_pos href, if_pos hend] at h
    exact h.2

lemma rtfcpUncompress_compressed (h : Headed pb inSize RTF_COMPRESSED) :
    rtfcpUncompress pb inSize stack plength =
      ((uncompressLoop pb inSize inSize (start pb stack)).1,
        (uncompressLoop pb inSize inSize (start pb stack)).2.1,
        (uncompressLoop pb inSize inSize (start pb stack)).2.2.getD plength) := by
  obtain ⟨hsize, hhead, hmagic⟩ := h
  rw [rtfcpUncompress, if_neg (by omega), if_neg (by simp [hhead]), if_neg (by simp [hmagic]),
    if_neg (by rw [hmagic]; decide)]
  rfl

lemma rtfcpUncompress_plain (h : Headed pb inSize RTF_UNCOMPRESSED) :
    rtfcpUncompress pb inSize stack plength =
      if plength < inSize - 4 * 4 then (false, [], plength)
      else (true, (List.range (inSize - 4 * 4)).map fun i => pb (4 * 4 + i), plength) := by
  obtain ⟨hsize, hhead, hmagic⟩ := h
  rw [rtfcpUncompress, if_neg (by omega), if_neg (by simp [hhead]), if_neg (by simp [hmagic]),
    if_pos hmagic]

lemma Reached.headed {s : Stage} (h : Reached pb inSize stack s) :
    s = .header ∨ Headed pb inSize RTF_COMPRESSED := by
  induction h with
  | header => exact .inl rfl
  | compressed hh => exact .inr hh
  | control _ _ ih => exact .inr (ih.resolve_left (by simp))
  | reference _ _ _ _ _ ih => exact .inr (ih.resolve_left (by simp))
  | literal _ _ _ _ _ ih => exact .inr (ih.resolve_left (by simp))
  | turn _ ih => exact .inr (ih.resolve_left (by simp))

/-- Where a call with the right `*plength` returns, the stage meets the condition. -/
lemma Bounded.returns (h : Bounded pb inSize stack plength)
    (hreads : ∀ s, Reached pb inSize stack s → s.Inside inSize → s.Reads inSize) {s : Stage}
    (hs : Reached pb inSize stack s) : s.Returns pb inSize plength := by
  have hres := hs.resumes hreads
  cases s with
  | header =>
    intro hplain
    by_contra hlt
    have hcall : rtfcpUncompress pb inSize stack plength = _ := rtfcpUncompress_plain hplain
    rw [if_neg (by omega)] at hcall
    have hlen := h.length _ _ hcall
    rw [List.length_map, List.length_range] at hlen
    omega
  | loop state =>
    intro htest
    obtain ⟨fuel, -, heq⟩ := hres
    have hstop : uncompressLoop pb inSize fuel state = (true, state.output, none) := by
      cases fuel with
      | zero => rfl
      | succ fuel => rw [uncompressLoop, if_neg htest]
    have hcall : rtfcpUncompress pb inSize stack plength = _ :=
      rtfcpUncompress_compressed (hs.headed.resolve_left (by simp))
    rw [heq, hstop] at hcall
    exact (h.length _ _ hcall).symm
  | bits control k state =>
    intro hk href hend
    obtain ⟨-, fuel, -, heq⟩ := hres
    have hturns : 8 - k = (8 - (k + 1)) + 1 := by omega
    have hstop : resume pb inSize fuel control k state =
        (true, state.output, some (outPos state)) := by
      rw [resume, hturns, controlLoop_succ, if_pos href, if_pos hend, afterReference_output,
        outPos, afterReference_output]
      rfl
    have hcall : rtfcpUncompress pb inSize stack plength = _ :=
      rtfcpUncompress_compressed (hs.headed.resolve_left (by simp))
    rw [heq, hstop] at hcall
    have hlen : outPos state = state.output.length := h.length _ _ hcall
    rw [← hlen]
    exact Nat.mod_lt _ (by norm_num)

end SteepSystem.Rtfcp.Bounds
