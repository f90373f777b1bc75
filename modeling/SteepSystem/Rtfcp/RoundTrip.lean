import SteepSystem.Rtfcp.LongestMatch
import SteepSystem.Lib.Prefix
import Mathlib.Data.Nat.Bitwise

/-!
The decompressor keeps in step with the compressor, ring and all: run on the finished stream, it
has read what a state of the compressor has pushed when it has put out the bytes taken so far.
-/

namespace SteepSystem.Rtfcp.RoundTrip

open SteepSystem.Lib.Bytes SteepSystem.Lib.Prefix
open SteepSystem.Rtfcp.Model SteepSystem.Rtfcp.LongestMatch

variable {buf out : ℕ → UInt8} {size inSize inputIdx k flag : ℕ} {s s' : CompressState}
  {st : DecompressionState}

section Stream

/-- `k` bits of the current control byte are in use. -/
structure WellFormed (s : CompressState) (k : ℕ) : Prop where
  lt : k < 8
  bit : s.controlBit = 2 ^ k
  idx : RTF_HEADERLENGTH ≤ s.controlByteIdx ∧ s.controlByteIdx < s.data.length
  low : (s.data.getD s.controlByteIdx 0).toNat < 2 ^ k

/-- `out` agrees with what the state has settled: all but the upper bits of the control byte. -/
structure Settled (out : ℕ → UInt8) (s : CompressState) (k : ℕ) : Prop where
  bytes : ∀ i < s.data.length, RTF_HEADERLENGTH ≤ i → i ≠ s.controlByteIdx →
    out i = s.data.getD i 0
  control : (out s.controlByteIdx).toNat % 2 ^ k = (s.data.getD s.controlByteIdx 0).toNat % 2 ^ k

/-- A token adds bytes at the end and one control bit. -/
structure Extends (s s' : CompressState) (k flag : ℕ) : Prop where
  idx : s'.controlByteIdx = s.controlByteIdx
  bit : s'.controlBit = s.controlBit
  length_lt : s.data.length < s'.data.length
  kept : ∀ i < s.data.length, i ≠ s.controlByteIdx → s'.data.getD i 0 = s.data.getD i 0
  control : (s'.data.getD s.controlByteIdx 0).toNat =
    (s.data.getD s.controlByteIdx 0).toNat + flag * 2 ^ k

/-- Back over a token: the state before it is settled too, and its control bit is read. -/
lemma Settled.of_extends (h : Extends s s' k flag) (hw : WellFormed s k) (hf : flag ≤ 1)
    (hs : Settled out s' (k + 1)) :
    Settled out s k ∧
      ((out s.controlByteIdx).toNat &&& (1 <<< k) ≠ 0 ↔ flag = 1) := by
  have hlow := hw.low
  have hc := hs.control
  rw [h.idx, h.control] at hc
  generalize hp : 2 ^ k = p at *
  have hpos : 0 < p := by rw [← hp]; positivity
  have hlt : (s.data.getD s.controlByteIdx 0).toNat + flag * p < p * 2 := by nlinarith
  rw [pow_succ, hp, Nat.mod_eq_of_lt hlt, Nat.mod_mul] at hc
  have hmod : (out s.controlByteIdx).toNat % p < p := Nat.mod_lt _ hpos
  have hbit : (out s.controlByteIdx).toNat / p % 2 = flag := by
    have h2 : (out s.controlByteIdx).toNat / p % 2 < 2 := Nat.mod_lt _ (by norm_num)
    generalize (out s.controlByteIdx).toNat / p % 2 = b at *
    interval_cases b <;> interval_cases flag <;> omega
  rw [hbit] at hc
  have hc' : (out s.controlByteIdx).toNat % p = (s.data.getD s.controlByteIdx 0).toNat := by
    rw [mul_comm p flag] at hc
    omega
  refine ⟨⟨fun i hi h16 hne => ?_, ?_⟩, ?_⟩
  · rw [hs.bytes i (hi.trans h.length_lt) h16 (by rwa [h.idx]), h.kept i hi hne]
  · rw [hp, hc', Nat.mod_eq_of_lt hlow]
  · rw [Nat.one_shiftLeft, Nat.and_two_pow, hp, Nat.testBit_eq_decide_div_mod_eq, hp, hbit]
    by_cases h1 : flag = 1 <;> simp [h1, hpos.ne']

/-- A byte that a token adds. -/
lemma Settled.added (h : Extends s s' k flag) (hw : WellFormed s k) (hs : Settled out s' (k + 1))
    {i : ℕ} (hi : s.data.length ≤ i) (hi' : i < s'.data.length) : out i = s'.data.getD i 0 := by
  have := hw.idx
  exact hs.bytes i hi' (by omega) (by rw [h.idx]; omega)

lemma Extends.next (out : ℕ → UInt8) (h : Extends s s' k flag) (hw : WellFormed s k)
    (hf : flag ≤ 1) :
    WellFormed s'.next ((k + 1) % 8) ∧
      (Settled out s'.next ((k + 1) % 8) → Settled out s' (k + 1)) := by
  have hk := hw.lt
  have hlow := hw.low
  have hidx := hw.idx
  have hlen := h.length_lt
  have hbit := h.bit.trans hw.bit
  have hlow' : (s'.data.getD s.controlByteIdx 0).toNat < 2 ^ (k + 1) := by
    rw [h.control, pow_succ]
    nlinarith
  rcases Nat.lt_or_ge k 7 with h7 | h7
  · have hne : s'.controlBit ≠ 0x80 := by
      rw [hbit]
      interval_cases k <;> decide
    have hnext : s'.next = { s' with controlBit := s'.controlBit <<< 1 } := by
      rw [CompressState.next, if_neg hne]
    rw [hnext, Nat.mod_eq_of_lt (by omega)]
    refine ⟨⟨by omega, ?_, by simp only [h.idx]; omega, ?_⟩, fun hs => ⟨hs.bytes, hs.control⟩⟩
    · simp only [hbit, Nat.shiftLeft_eq, pow_succ, pow_zero, one_mul]
    · simp only [h.idx]
      exact hlow'
  · obtain rfl : k = 7 := by omega
    have hnext : s'.next = { s' with
        controlBit := 0x01, controlByteIdx := s'.data.length, data := s'.data ++ [0] } := by
      rw [CompressState.next, if_pos (by rw [hbit]; rfl)]
    rw [hnext]
    refine ⟨⟨by norm_num, rfl, ?_, ?_⟩, fun hs => ?_⟩
    · simp only [List.length_append, List.length_singleton]
      omega
    · simp only
      rw [getD_append_right le_rfl, Nat.sub_self]
      simp
    · have hbytes : ∀ i < s'.data.length, RTF_HEADERLENGTH ≤ i → out i = s'.data.getD i 0 := by
        intro i hi h16
        have := hs.bytes i (by simp; omega) h16 hi.ne
        rwa [getD_append_left hi] at this
      refine ⟨fun i hi h16 _ => hbytes i hi h16, ?_⟩
      rw [hbytes _ (by rw [h.idx]; omega) (by rw [h.idx]; omega)]

lemma extends_literal (hw : WellFormed s k) (b : UInt8) (dict : ℕ → UInt8) (w : ℕ) :
    Extends s { s with data := s.data ++ [b], dict := dict, dictWriteIdx := w } k 0 :=
  ⟨rfl, rfl, by simp, fun i hi _ => getD_append_left hi 0,
    by simp only; rw [getD_append_left hw.idx.2]; simp⟩

lemma extends_reference (hw : WellFormed s k) (r : ℕ) (dict : ℕ → UInt8) (w : ℕ) :
    Extends s { s with
      data := s.setControl ++ pushReference r, dict := dict, dictWriteIdx := w } k 1 := by
  have hl : s.setControl.length = s.data.length := by simp [CompressState.setControl]
  have hk := hw.lt
  have hidx := hw.idx
  have hbit : (UInt8.ofNat s.controlBit).toNat = 2 ^ k := by
    rw [hw.bit]
    interval_cases k <;> rfl
  refine ⟨rfl, rfl, by simp [hl, pushReference], fun i hi hne => ?_, ?_⟩
  · simp only
    rw [getD_append_left (by omega), CompressState.setControl, getD_modify_ne hne]
  · simp only
    rw [getD_append_left (by omega), CompressState.setControl, getD_modify_eq hidx.2,
      UInt8.toNat_or, hbit, Nat.or_comm]
    have := Nat.two_pow_add_eq_or_of_lt hw.low 1
    rw [mul_one] at this
    rw [← this]
    ring

end Stream

section Reference

lemma and_fff0 {x : ℕ} (hx : x < 65536) : (x &&& 0xFFF0) >>> 4 = x / 16 := by
  have h : (0xFFF0 : ℕ) >>> 4 = 2 ^ 12 - 1 := rfl
  rw [Nat.shiftRight_and_distrib, h, Nat.and_two_pow_sub_one_eq_mod, Nat.shiftRight_eq_div_pow]
  omega

/-- The bytes of a reference spell it. -/
lemma pushReference_eq {r : ℕ} (hr : r < 65536) :
    pushReference r = [UInt8.ofNat (r / 256), UInt8.ofNat (r % 256)] := by
  have h1 : (r &&& 0xFF00) >>> 8 = r / 256 := by
    have h : (0xFF00 : ℕ) >>> 8 = 2 ^ 8 - 1 := rfl
    rw [Nat.shiftRight_and_distrib, h, Nat.and_two_pow_sub_one_eq_mod, Nat.shiftRight_eq_div_pow]
    omega
  have h2 : r &&& 0xFF = r % 256 := Nat.and_two_pow_sub_one_eq_mod r 8
  rw [pushReference, h1, h2]

lemma next_byte {state : DecompressionState} (h : state.inPos < inSize) :
    rtfcpGetNextByte out inSize state =
      (out state.inPos, { state with inPos := state.inPos + 1 }) := by
  rw [rtfcpGetNextByte, if_neg (by omega)]

/-- A reference that stands in the input is read: length in the lower four bits. -/
lemma next_reference {r : ℕ} (hr : r < 65536) (hin : st.inPos + 1 < inSize)
    (h0 : out st.inPos = UInt8.ofNat (r / 256)) (h1 : out (st.inPos + 1) = UInt8.ofNat (r % 256)) :
    rtfcpGetNextDictionaryReference out inSize st =
      ((r % 16 + 2, r / 16), { st with inPos := st.inPos + 2 }) := by
  have hlow : ((UInt8.ofNat (r % 256)) &&& 0x0F).toNat = r % 16 := by
    have h : ∀ x : ℕ, x &&& 15 = x % 16 := fun x => Nat.and_two_pow_sub_one_eq_mod x 4
    rw [UInt8.toNat_and]
    simp only [UInt8.toNat_ofNat', UInt8.reduceToNat, h]
    omega
  have hsum : ((UInt8.ofNat (r / 256)).toNat <<< 8) + (UInt8.ofNat (r % 256)).toNat = r := by
    rw [Nat.shiftLeft_eq, UInt8.toNat_ofNat', UInt8.toNat_ofNat']
    omega
  rw [rtfcpGetNextDictionaryReference, next_byte (by omega)]
  dsimp only
  rw [next_byte (by exact hin)]
  dsimp only
  rw [h0, h1, hlow, hsum, and_fff0 hr]

end Reference

/-- The decompressor has read what the state has pushed, and the rings agree below the place
where both write next. -/
structure InStep (buf : ℕ → UInt8) (size : ℕ) (s : CompressState) (inputIdx : ℕ)
    (st : DecompressionState) : Prop where
  pos : st.inPos = s.data.length
  output : st.output = firstN buf inputIdx
  outSize : size ≤ st.outSize
  offset : st.dictWriteoffset = s.dictWriteIdx % RTF_DICTLENGTH
  dict : ∀ p < s.dictWriteIdx % RTF_DICTLENGTH, st.dict p = s.dict p

/-- The two loops from a control bit on. -/
def resume (out : ℕ → UInt8) (inSize fuel : ℕ) (control : UInt8) (k : ℕ)
    (st : DecompressionState) : Bool × List UInt8 × Option ℕ :=
  match controlLoop out inSize control (8 - k) k st with
  | .ret ok output plength => (ok, output, plength)
  | .more st => uncompressLoop out inSize fuel st

lemma uncompressLoop_eq {fuel : ℕ} (h : st.inPos + 1 < inSize) (hin : inSize ≤ 2 ^ 32) :
    uncompressLoop out inSize (fuel + 1) st =
      resume out inSize fuel (out st.inPos) 0 { st with inPos := st.inPos + 1 } := by
  have htest : (st.inPos + 1) % 2 ^ 32 < inSize := by omega
  rw [uncompressLoop, if_pos htest, next_byte (by omega)]
  rfl

/-- From a decompressor in step with this state the whole string is put out. -/
def Decodes (buf out : ℕ → UInt8) (size inSize : ℕ) (s : CompressState) (inputIdx k : ℕ) : Prop :=
  inSize ≤ 2 ^ 32 → size < 2 ^ 32 →
    ∀ fuel st, inSize ≤ fuel + s.data.length → InStep buf size s inputIdx st →
      resume out inSize fuel (out s.controlByteIdx) k st = (true, firstN buf size, some size)

/-- One turn of the inner loop, and the control byte after the eighth. -/
lemma decodes_of_turn (hk : k < 8) (hidx : s'.controlByteIdx = s.controlByteIdx)
    (hbit : s'.controlBit = 2 ^ k) (hlen : s.data.length < s'.data.length)
    (hsize : s'.next.data.length < inSize) {n : ℕ}
    (hturn : ∀ st, InStep buf size s inputIdx st → ∃ st', InStep buf size s' (inputIdx + n) st' ∧
      controlLoop out inSize (out s.controlByteIdx) (8 - k) k st =
        controlLoop out inSize (out s.controlByteIdx) (8 - (k + 1)) (k + 1) st')
    (hd : Decodes buf out size inSize s'.next (inputIdx + n) ((k + 1) % 8)) :
    Decodes buf out size inSize s inputIdx k := by
  intro hin hsize32 fuel st hfuel hst
  obtain ⟨st', hst', hloop⟩ := hturn st hst
  rw [resume, hloop]
  rcases Nat.lt_or_ge k 7 with h7 | h7
  · have hne : s'.controlBit ≠ 0x80 := by
      rw [hbit]
      interval_cases k <;> decide
    rw [CompressState.next, if_neg hne, Nat.mod_eq_of_lt (by omega)] at hd
    rw [← hidx]
    exact hd hin hsize32 fuel st' (by simp only; omega)
      ⟨hst'.pos, hst'.output, hst'.outSize, hst'.offset, hst'.dict⟩
  · obtain rfl : k = 7 := by omega
    have heq : s'.controlBit = 0x80 := by rw [hbit]; rfl
    rw [CompressState.next, if_pos heq] at hd hsize
    simp only [List.length_append, List.length_singleton] at hsize
    obtain ⟨fuel, rfl⟩ : ∃ f, fuel = f + 1 := ⟨fuel - 1, by omega⟩
    have hmore : controlLoop out inSize (out s.controlByteIdx) (8 - (7 + 1)) (7 + 1) st' =
        .more st' := rfl
    have hpos := hst'.pos
    rw [hmore]
    dsimp only
    rw [uncompressLoop_eq (by omega) hin, hpos]
    refine hd hin hsize32 fuel _ ?_ ⟨?_, hst'.output, hst'.outSize, hst'.offset, hst'.dict⟩
    · simp only [List.length_append, List.length_singleton]
      omega
    · simp

/-- The ring after a literal, written by the search or after it. -/
lemma literal_dict {m : Match} (hm : Searching buf size inputIdx s.dict s.dictWriteIdx m)
    (hbest : m.bestMatchLength ≤ 1) :
    (if m.bestMatchLength = 0 then m.writeIdx + 1 else m.writeIdx) = s.dictWriteIdx + 1 ∧
      ∀ p < s.dictWriteIdx % RTF_DICTLENGTH + 1,
        (if m.bestMatchLength = 0 then
          setEntry m.pdict (m.writeIdx % RTF_DICTLENGTH) (buf inputIdx) else m.pdict) p =
          written buf s.dict inputIdx (s.dictWriteIdx % RTF_DICTLENGTH) p := by
  have hw := hm.writeIdx_eq
  have hdict := hm.dict_eq
  split_ifs with h0
  · refine ⟨by omega, fun p hp => ?_⟩
    rw [h0, add_zero] at hw hdict
    rw [setEntry, hw]
    split_ifs with hpe
    · rw [written, if_neg (by omega), hpe, Nat.sub_self, add_zero]
    · exact hdict p (by omega)
  · have h1 : m.bestMatchLength = 1 := by omega
    rw [h1] at hw hdict
    exact ⟨hw, hdict⟩

lemma turn_literal (hk : k < 8)
    (hbit : ¬ (out s.controlByteIdx).toNat &&& (1 <<< k) ≠ 0)
    (hread : out s.data.length = buf inputIdx) (hsize : s.data.length + 1 ≤ inSize)
    (hin : inputIdx < size) {dict : ℕ → UInt8} {w : ℕ} {m : Match}
    (hm : Searching buf size inputIdx s.dict s.dictWriteIdx m) (hbest : m.bestMatchLength ≤ 1)
    (hdict : dict = if m.bestMatchLength = 0 then
      setEntry m.pdict (m.writeIdx % RTF_DICTLENGTH) (buf inputIdx) else m.pdict)
    (hw : w = if m.bestMatchLength = 0 then m.writeIdx + 1 else m.writeIdx)
    (hst : InStep buf size s inputIdx st) :
    ∃ st', InStep buf size
        { s with data := s.data ++ [buf inputIdx], dict := dict, dictWriteIdx := w }
        (inputIdx + 1) st' ∧
      controlLoop out inSize (out s.controlByteIdx) (8 - k) k st =
        controlLoop out inSize (out s.controlByteIdx) (8 - (k + 1)) (k + 1) st' := by
  obtain ⟨hw', hd'⟩ := literal_dict hm hbest
  have hpos := hst.pos
  have hout := hst.outSize
  have hl : st.output.length = inputIdx := by rw [hst.output, length_firstN]
  have hturns : 8 - k = (8 - (k + 1)) + 1 := by omega
  refine ⟨_, ?_, by
    rw [hturns, controlLoop, if_neg hbit, if_neg (by omega), next_byte (by omega)]
    dsimp only
    rw [if_neg (by omega)]⟩
  have hmod : (s.dictWriteIdx + 1) % RTF_DICTLENGTH ≤ s.dictWriteIdx % RTF_DICTLENGTH + 1 := by
    rw [RTF_DICTLENGTH]
    omega
  refine ⟨?_, ?_, hout, ?_, fun p hp => ?_⟩
  · simp [rtfcpAppendToDictionary, rtfcpAppendToOutput, hpos]
  · simp only [rtfcpAppendToDictionary, rtfcpAppendToOutput]
    rw [hst.output, hpos, hread, firstN_succ]
  · simp only [rtfcpAppendToDictionary, rtfcpAppendToOutput]
    rw [hst.offset, hw, hw', Nat.mod_add_mod]
  · simp only at hp ⊢
    rw [hw, hw'] at hp
    rw [hdict, hd' p (by omega)]
    simp only [rtfcpAppendToDictionary, rtfcpAppendToOutput]
    rw [setEntry, hst.offset, hpos, hread, written]
    split_ifs with hpe hlt hlt
    · omega
    · rw [hpe, Nat.sub_self, add_zero]
    · exact hst.dict p hlt
    · omega

/-- The loop over a reference repeats what the search has found. -/
lemma copyReference_spec (st : DecompressionState) {dict : ℕ → UInt8} {m : Match} {W : ℕ}
    (hroom : W + m.bestMatchLength ≤ RTF_DICTLENGTH) (hoff : m.matchOffset < W)
    (hbytes : ∀ j < m.bestMatchLength,
      buf (inputIdx + j) = written buf dict inputIdx W (m.matchOffset + j))
    {n i : ℕ} (hn : i + n = m.bestMatchLength) (hout : inputIdx + m.bestMatchLength ≤ st.outSize)
    (ho : st.output = firstN buf (inputIdx + i))
    (hw : st.dictWriteoffset = (W + i) % RTF_DICTLENGTH)
    (hd : ∀ p < W + i, st.dict p = written buf dict inputIdx W p) :
    ∃ st', copyReference m.matchOffset n i st = some st' ∧ st'.inPos = st.inPos ∧
      st'.outSize = st.outSize ∧ st'.output = firstN buf (inputIdx + m.bestMatchLength) ∧
      st'.dictWriteoffset = (W + m.bestMatchLength) % RTF_DICTLENGTH ∧
      ∀ p < W + m.bestMatchLength, st'.dict p = written buf dict inputIdx W p := by
  induction n generalizing i st with
  | zero =>
    obtain rfl : i = m.bestMatchLength := by omega
    exact ⟨st, rfl, rfl, rfl, ho, hw, hd⟩
  | succ n ih =>
    have hl : st.output.length = inputIdx + i := by rw [ho, length_firstN]
    have hmod : (m.matchOffset + i) % RTF_DICTLENGTH = m.matchOffset + i :=
      Nat.mod_eq_of_lt (by omega)
    have hwlt : st.dictWriteoffset = W + i := by
      rw [hw]
      exact Nat.mod_eq_of_lt (by omega)
    have hc : st.dict (m.matchOffset + i) = buf (inputIdx + i) := by
      rw [hd _ (by omega), ← hbytes i (by omega)]
    rw [copyReference, if_neg (by omega), hmod, hc]
    refine ih _ (i := i + 1) (by omega) hout ?_ ?_ fun p hp => ?_
    · simp only [rtfcpAppendToDictionary, rtfcpAppendToOutput]
      rw [ho, ← add_assoc, firstN_succ]
    · simp only [rtfcpAppendToDictionary, rtfcpAppendToOutput]
      rw [hwlt, add_assoc]
    · simp only [rtfcpAppendToDictionary, rtfcpAppendToOutput]
      rw [setEntry, hwlt]
      split_ifs with hpe
      · rw [written, if_neg (by omega), hpe, Nat.add_sub_cancel_left]
      · exact hd p (by omega)

/-- The number that a reference is pushed as, taken apart. -/
lemma reference_parts {offset length : ℕ} (ho : offset < RTF_DICTLENGTH) (h2 : 2 ≤ length)
    (h17 : length ≤ 17) :
    (offset <<< 4 + (length - 2)) % 65536 < 65536 ∧
      (offset <<< 4 + (length - 2)) % 65536 % 16 + 2 = length ∧
      (offset <<< 4 + (length - 2)) % 65536 / 16 = offset := by
  rw [RTF_DICTLENGTH] at ho
  rw [Nat.shiftLeft_eq]
  omega

lemma turn_reference (hk : k < 8) (hbit : (out s.controlByteIdx).toNat &&& (1 <<< k) ≠ 0)
    {m : Match} (hm : Searching buf size inputIdx s.dict s.dictWriteIdx m)
    (hbest : 1 < m.bestMatchLength) (hin : inputIdx < size) {r : ℕ}
    (hr : r = (m.matchOffset <<< 4 + (m.bestMatchLength - 2)) % 65536)
    (h0 : out s.data.length = UInt8.ofNat (r / 256))
    (h1 : out (s.data.length + 1) = UInt8.ofNat (r % 256)) (hsize : s.data.length + 2 ≤ inSize)
    {data : List UInt8} (hdata : data.length = s.data.length + 2)
    (hst : InStep buf size s inputIdx st) :
    ∃ st', InStep buf size
        { s with data := data, dict := m.pdict, dictWriteIdx := m.writeIdx }
        (inputIdx + m.bestMatchLength) st' ∧
      controlLoop out inSize (out s.controlByteIdx) (8 - k) k st =
        controlLoop out inSize (out s.controlByteIdx) (8 - (k + 1)) (k + 1) st' := by
  have hpos := hst.pos
  have hout := hst.outSize
  have hoff := hm.offset_lt (by omega)
  have hroom := hm.room
  have hfits := hm.fits
  obtain ⟨hr1, hr2, hr3⟩ := reference_parts
    (hoff.trans (Nat.mod_lt _ (by decide))) hbest hm.length_le
  rw [← hr] at hr1 hr2 hr3
  have hturns : 8 - k = (8 - (k + 1)) + 1 := by omega
  have hread : rtfcpGetNextDictionaryReference out inSize st =
      ((r % 16 + 2, r / 16), { st with inPos := st.inPos + 2 }) :=
    next_reference hr1 (by omega) (by rw [hpos, h0]) (by rw [hpos, h1])
  obtain ⟨st', hcopy, hp', hs', ho', hw', hd'⟩ := copyReference_spec
    { st with inPos := st.inPos + 2 } hroom hoff hm.bytes_eq (Nat.zero_add _) (by simp only; omega) hst.output
    (by simp only [add_zero]; rw [hst.offset, Nat.mod_mod]) fun p hp => by
      rw [written, if_pos (by simpa using hp)]
      exact hst.dict p (by simpa using hp)
  refine ⟨st', ⟨?_, ho', ?_, ?_, fun p hp => ?_⟩, ?_⟩
  · simp only at hp' ⊢
    omega
  · rw [hs']
    exact hout
  · rw [hw', hm.writeIdx_eq, Nat.mod_add_mod]
  · have hmod : m.writeIdx % RTF_DICTLENGTH ≤
        s.dictWriteIdx % RTF_DICTLENGTH + m.bestMatchLength := by
      rw [hm.writeIdx_eq, RTF_DICTLENGTH]
      omega
    simp only at hp ⊢
    rw [hd' p (by omega), hm.dict_eq p (by omega)]
  · rw [hturns, controlLoop, if_pos hbit, hread]
    dsimp only
    rw [hr2, hr3, if_neg (by rw [hst.offset]; exact hoff.ne), hcopy]

/-- **One turn of the compressor**: the token it pushes, and the turn of the decompressor that
reads it. -/
lemma compressStep_spec (out : ℕ → UInt8) (inSize : ℕ) (hw : WellFormed s k) (hin : inputIdx < size) :
    ∃ s' flag n, compressStep buf size inputIdx s = (n, s'.next) ∧ flag ≤ 1 ∧ 1 ≤ n ∧
      inputIdx + n ≤ size ∧ Extends s s' k flag ∧ 8 * s'.data.length + 1 ≤ 8 * s.data.length + 9 * n ∧
      (Settled out s' (k + 1) → s'.data.length ≤ inSize → ∀ st, InStep buf size s inputIdx st →
        ∃ st', InStep buf size s' (inputIdx + n) st' ∧
          controlLoop out inSize (out s.controlByteIdx) (8 - k) k st =
            controlLoop out inSize (out s.controlByteIdx) (8 - (k + 1)) (k + 1) st') := by
  have hm := rtfcpLongestMatch_searching buf size inputIdx s.dict s.dictWriteIdx
  rw [compressStep]
  generalize rtfcpLongestMatch buf size inputIdx s.dict s.dictWriteIdx = m at *
  have hfits := hm.fits
  by_cases hbest : m.bestMatchLength > 1
  · have hl : s.setControl.length = s.data.length := by simp [CompressState.setControl]
    have hext := extends_reference hw ((m.matchOffset <<< 4 + (m.bestMatchLength - 2)) % 65536)
      m.pdict m.writeIdx
    have hr := (reference_parts ((hm.offset_lt (by omega)).trans (Nat.mod_lt _ (by decide)))
      hbest hm.length_le).1
    have hlen : (s.setControl ++ pushReference
        ((m.matchOffset <<< 4 + (m.bestMatchLength - 2)) % 65536)).length =
        s.data.length + 2 := by simp [hl, pushReference]
    refine ⟨_, 1, m.bestMatchLength, by rw [if_pos hbest], le_rfl, by omega, by omega, hext, ?_,
      fun hs hsize st hst => ?_⟩
    · simp only [hlen]
      omega
    · simp only [hlen] at hsize
      have hadd : ∀ j < 2, out (s.data.length + j) = (pushReference
          ((m.matchOffset <<< 4 + (m.bestMatchLength - 2)) % 65536)).getD j 0 := by
        intro j hj
        rw [hs.added hext hw (by omega) (by simp only [hlen]; omega)]
        simp only
        rw [getD_append_right (by omega), hl, Nat.add_sub_cancel_left]
      rw [pushReference_eq hr] at hadd
      exact turn_reference hw.lt (((hs.of_extends hext hw le_rfl).2).2 rfl) hm hbest hin rfl
        (hadd 0 (by norm_num)) (hadd 1 (by norm_num)) hsize hlen hst
  · have hext := extends_literal hw (buf inputIdx)
      (if m.bestMatchLength = 0 then
        setEntry m.pdict (m.writeIdx % RTF_DICTLENGTH) (buf inputIdx) else m.pdict)
      (if m.bestMatchLength = 0 then m.writeIdx + 1 else m.writeIdx)
    refine ⟨_, 0, 1, by rw [if_neg hbest], by norm_num, le_rfl, hin, hext, ?_,
      fun hs hsize st hst => ?_⟩
    · simp only [List.length_append, List.length_singleton]
      omega
    · have hread := hs.added hext hw le_rfl (by simp)
      simp only at hread
      rw [getD_append_right le_rfl, Nat.sub_self, List.getD_cons_zero] at hread
      simp only [List.length_append, List.length_singleton] at hsize
      exact turn_literal hw.lt (by simpa using (hs.of_extends hext hw (by norm_num)).2) hread hsize
        hin hm (by omega) rfl rfl hst

/-- The output has settled this state, goes on behind it and is decoded from it. -/
structure Coded (buf out : ℕ → UInt8) (size inSize : ℕ) (s : CompressState) (inputIdx k : ℕ) :
    Prop where
  settled : Settled out s k
  length_lt : s.data.length < inSize
  decodes : Decodes buf out size inSize s inputIdx k

/-- The loop, from its finished stream back to its start; the stream stays short. -/
lemma compressLoop_spec (buf out : ℕ → UInt8) (inSize fuel : ℕ) (hw : WellFormed s k) (hle : inputIdx ≤ size)
    (hf : size - inputIdx ≤ fuel) (hshort : 8 * s.data.length + k ≤ 136 + 9 * inputIdx) :
    ∃ k', WellFormed (compressLoop buf size fuel inputIdx s) k' ∧
      8 * (compressLoop buf size fuel inputIdx s).data.length ≤ 136 + 9 * size ∧
      (Coded buf out size inSize (compressLoop buf size fuel inputIdx s) size k' →
        Coded buf out size inSize s inputIdx k) := by
  induction fuel generalizing inputIdx s k with
  | zero =>
    obtain rfl : inputIdx = size := by omega
    exact ⟨k, hw, by rw [compressLoop]; omega, id⟩
  | succ fuel ih =>
    rw [compressLoop]
    split_ifs with hin
    · obtain ⟨s', flag, n, hstep, hflag, hn, hfits, hext, hlen, hturn⟩ :=
        compressStep_spec out inSize hw hin
      obtain ⟨hw', hback⟩ := hext.next out hw hflag
      have hk := hw.lt
      have hnext : s'.next.data.length ≤ s'.data.length + 1 ∧
          s'.data.length ≤ s'.next.data.length ∧
          8 * s'.next.data.length + (k + 1) % 8 ≤ 8 * s'.data.length + (k + 1) := by
        rw [CompressState.next]
        have hbit := hext.bit.trans hw.bit
        split_ifs with h80
        · have h7 : k = 7 := Nat.pow_right_injective (le_refl 2) (hbit.symm.trans h80)
          simp only [List.length_append, List.length_singleton]
          omega
        · simp only
          omega
      rw [hstep]
      obtain ⟨k', hwf, hbound, hih⟩ := ih hw' hfits (by omega)
        (by omega)
      refine ⟨k', hwf, hbound, fun hc => ?_⟩
      obtain ⟨hs', hlt, hd⟩ := hih hc
      have hs := hback hs'
      have hgrow := hext.length_lt
      exact ⟨(hs.of_extends hext hw hflag).1, by omega,
        decodes_of_turn hw.lt hext.idx (hext.bit.trans hw.bit) hgrow hlt
          (hturn hs (by omega)) hd⟩
    · obtain rfl : inputIdx = size := by omega
      exact ⟨k, hw, by omega, id⟩

/-- The reference to the place written next ends the stream. -/
lemma coded_of_end (hw : WellFormed s k) {data : List UInt8}
    (hdata : data = s.setControl ++ pushReference ((s.dictWriteIdx % RTF_DICTLENGTH) <<< 4))
    (hsize : inSize = data.length)
    (ho : ∀ i < data.length, RTF_HEADERLENGTH ≤ i → out i = data.getD i 0) :
    Coded buf out size inSize s size k := by
  have hl : s.setControl.length = s.data.length := by simp [CompressState.setControl]
  have hext := extends_reference hw ((s.dictWriteIdx % RTF_DICTLENGTH) <<< 4) s.dict s.dictWriteIdx
  have hidx := hw.idx
  rw [← hdata] at hext
  have hlen : data.length = s.data.length + 2 := by rw [hdata]; simp [hl, pushReference]
  have hs : Settled out { s with data := data, dict := s.dict, dictWriteIdx := s.dictWriteIdx }
      (k + 1) := by
    refine ⟨fun i hi h16 _ => ho i hi h16, ?_⟩
    simp only
    rw [ho _ (by omega) hidx.1]
  obtain ⟨hset, hbit⟩ := hs.of_extends hext hw le_rfl
  refine ⟨hset, by omega, fun hin hsize32 fuel st hfuel hst => ?_⟩
  have hpos := hst.pos
  have hW : s.dictWriteIdx % RTF_DICTLENGTH < RTF_DICTLENGTH := Nat.mod_lt _ (by decide)
  have hr := reference_parts hW (le_refl 2) (by norm_num)
  rw [Nat.sub_self, add_zero] at hr
  have hmod : (s.dictWriteIdx % RTF_DICTLENGTH) <<< 4 % 65536 =
      (s.dictWriteIdx % RTF_DICTLENGTH) <<< 4 := by
    rw [RTF_DICTLENGTH] at hW ⊢
    rw [Nat.shiftLeft_eq]
    omega
  rw [hmod] at hr
  have hadd : ∀ j < 2, out (s.data.length + j) =
      (pushReference ((s.dictWriteIdx % RTF_DICTLENGTH) <<< 4)).getD j 0 := by
    intro j hj
    rw [ho _ (by omega) (by omega), hdata, getD_append_right (by omega), hl,
      Nat.add_sub_cancel_left]
  rw [pushReference_eq hr.1] at hadd
  have hread := next_reference hr.1 (show st.inPos + 1 < inSize by omega)
    (by rw [hpos]; exact hadd 0 (by norm_num)) (by rw [hpos]; exact hadd 1 (by norm_num))
  have hk := hw.lt
  have hturns : 8 - k = (8 - (k + 1)) + 1 := by omega
  rw [resume, hturns, controlLoop, if_pos (hbit.2 rfl), hread]
  dsimp only
  rw [hr.2.2, if_pos hst.offset.symm, hst.output, length_firstN, Nat.mod_eq_of_lt hsize32]

lemma wellFormed_init (stack : ℕ → UInt8) : WellFormed (.init stack) 0 :=
  ⟨by norm_num, rfl, by simp [CompressState.init, RTF_HEADERLENGTH],
    by simp [CompressState.init]⟩

lemma ival_of_le {pos v : ℕ} (hv : v < 2 ^ 32)
    (h : ∀ j < 4, out (pos + j) = (le 4 v).getD j 0) : ival out pos = v := by
  have h4 : ofLE (le 4 v) = v := ofLE_le_of_lt (by norm_num; omega)
  have h0 := h 0 (by norm_num)
  rw [add_zero] at h0
  rw [ival, h0, h 1 (by norm_num), h 2 (by norm_num), h 3 (by norm_num)]
  simpa [le] using h4

/-- **Round trip.** Of the compressed form of a string shorter than 2³¹ bytes the decompressor,
whatever the memory behind it, both rings and `*plength` held before, puts out the string,
returns `TRUE` and sets `*plength` to its length. -/
theorem rtfcpUncompress_compress (buf out stack stack' : ℕ → UInt8) (size plength : ℕ)
    (hsize : size < 2 ^ 31)
    (hout : ∀ i (h : i < (rtfcpCompress buf size stack).length),
      out i = (rtfcpCompress buf size stack)[i]) :
    rtfcpUncompress out (rtfcpCompress buf size stack).length stack' plength =
      (true, firstN buf size, size) := by
  have hout' : ∀ i < (rtfcpCompress buf size stack).length,
      out i = (rtfcpCompress buf size stack).getD i 0 := by
    intro i hi
    rw [hout i hi]
    simp [List.getD, hi]
  obtain ⟨k, hw, hshort, hmain⟩ := compressLoop_spec buf out
    (compressBody buf size stack).length size (wellFormed_init stack) (Nat.zero_le size) (by omega) (by simp [CompressState.init])
  have hsc : ∀ s : CompressState, s.setControl.length = s.data.length := by
    simp [CompressState.setControl]
  have hbody : (compressBody buf size stack).length =
      (compressLoop buf size size 0 (.init stack)).data.length + 2 := by
    simp [compressBody, pushReference, hsc]
  have hidx := hw.idx
  rw [RTF_HEADERLENGTH] at hidx
  have hlen : (rtfcpCompress buf size stack).length = (compressBody buf size stack).length := by
    simp only [rtfcpCompress, List.length_append, length_le, List.length_drop]
    omega
  -- the header, and the stream behind it
  have hhead : ∀ (pre : List UInt8) (v : ℕ) (post : List UInt8), v < 2 ^ 32 →
      rtfcpCompress buf size stack = pre ++ le 4 v ++ post → ival out pre.length = v := by
    intro pre v post hv heq
    refine ival_of_le hv fun j hj => ?_
    rw [hout' _ (by rw [heq]; simp; omega), heq, List.append_assoc,
      getD_append_right (by omega), getD_append_left (by rw [length_le]; omega),
      Nat.add_sub_cancel_left]
  have h0 := hhead [] ((compressBody buf size stack).length - 4) _ (by omega)
    (by simp only [rtfcpCompress, List.nil_append, List.append_assoc]; rfl)
  have h4 := hhead (le 4 ((compressBody buf size stack).length - 4)) size _ (by omega)
    (by simp only [rtfcpCompress, List.append_assoc]; rfl)
  have h8 := hhead (le 4 ((compressBody buf size stack).length - 4) ++ le 4 size) RTF_COMPRESSED _
    (by decide) (by simp only [rtfcpCompress, List.append_assoc]; rfl)
  simp only [List.length_nil, List.length_append, length_le] at h0 h4 h8
  have hstream : ∀ i < (compressBody buf size stack).length, RTF_HEADERLENGTH ≤ i →
      out i = (compressBody buf size stack).getD i 0 := by
    intro i hi h16
    rw [RTF_HEADERLENGTH] at h16
    rw [hout' i (by omega), rtfcpCompress, getD_append_right (by simp; omega)]
    simp only [List.length_append, length_le, List.getD, List.getElem?_drop]
    congr 2
    omega
  obtain ⟨-, hlt, hd⟩ := hmain (coded_of_end hw rfl rfl hstream)
  have hlt' : 17 < (compressBody buf size stack).length := hlt
  rw [hlen, rtfcpUncompress, if_neg (by omega), if_neg (by omega), if_neg (by simp [h8]),
    if_neg (by rw [h8]; decide)]
  obtain ⟨f, hf⟩ : ∃ f, (compressBody buf size stack).length = f + 1 :=
    ⟨(compressBody buf size stack).length - 1, by omega⟩
  have hstart : uncompressLoop out (compressBody buf size stack).length
      (compressBody buf size stack).length
      ⟨initDict stack', RTF_INITLENGTH, RTF_HEADERLENGTH,
        (ival out 4 + RTF_HEADERLENGTH + 4) % 2 ^ 32, []⟩ = (true, firstN buf size, some size) := by
    conv_lhs => rw [hf]
    rw [uncompressLoop_eq (by rw [← hf]; exact hlt') (by omega), ← hf]
    refine hd (by omega) (by omega) f _ (by rw [hf]; simp [CompressState.init]) ⟨rfl, rfl, ?_, rfl, fun p hp => ?_⟩
    · simp only [RTF_HEADERLENGTH, h4]
      omega
    · have hp' : p < RTF_INITLENGTH := hp
      simp only [CompressState.init, initDict, if_pos hp']
  rw [hstart]
  rfl

theorem rtfcpUncompress_compress_ab :
    rtfcpUncompress (fun i => (rtfcpCompress (fun _ => 0x61) 30 fun _ => 1).getD i 7)
        (rtfcpCompress (fun _ => 0x61) 30 fun _ => 1).length (fun _ => 2) 64 =
      (true, firstN (fun _ => 0x61) 30, 30) :=
  rtfcpUncompress_compress _ _ _ _ 30 64 (by norm_num)
    fun i h => by simp [List.getD, h]

end SteepSystem.Rtfcp.RoundTrip
