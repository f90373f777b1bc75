import SteepSystem.Lzxpress.Written

/-!
The decompressor keeps in step with the compressor: run on the finished output, it has read what
a state of the compressor has written when it has put out the bytes that are coded so far.
-/

namespace SteepSystem.Lzxpress.RoundTrip

open SteepSystem.Lib.Bytes SteepSystem.Lib.Prefix
open SteepSystem.Lzxpress.Model SteepSystem.Lzxpress.Written

variable {uncompressed out : ℕ → UInt8} {size inputSize : ℕ} {e : Encoder} {d : Decoder}

section Search

/-- What the measured length of a match says. -/
lemma matchLength_spec (fuel : ℕ) {codingPos offset length : ℕ}
    (h1 : ∀ j < length, uncompressed (codingPos + j) = uncompressed (offset + j))
    (h2 : offset + length ≤ codingPos) (h3 : length ≤ MAX_MATCH_LENGTH)
    (h4 : length ≤ size - codingPos - 1) :
    let n := matchLength uncompressed size codingPos offset fuel length
    (∀ j < n, uncompressed (codingPos + j) = uncompressed (offset + j)) ∧
      offset + n ≤ codingPos ∧ n ≤ MAX_MATCH_LENGTH ∧ n ≤ size - codingPos - 1 := by
  induction fuel generalizing length with
  | zero => exact ⟨h1, h2, h3, h4⟩
  | succ fuel ih =>
    rw [matchLength]
    split_ifs with hc
    · refine ih (fun j hj => ?_) (by omega) (by omega) (by omega)
      rcases Nat.lt_succ_iff_lt_or_eq.1 hj with hj | rfl
      · exact h1 j hj
      · exact hc.1
    · exact ⟨h1, h2, h3, h4⟩

/-- A match found lies within the window and repeats bytes that are coded already. -/
structure IsMatch (uncompressed : ℕ → UInt8) (size codingPos matchOffset length : ℕ) : Prop where
  offset_mem : 1 ≤ matchOffset ∧ matchOffset ≤ WINDOWS_SIZE ∧ matchOffset ≤ codingPos
  length_mem : 3 ≤ length ∧ length ≤ MAX_MATCH_LENGTH
  fits : codingPos + length < size
  bytes : ∀ j < length, uncompressed (codingPos + j) = uncompressed (codingPos - matchOffset + j)

lemma findMatch_spec {codingPos fuel offset matchOffset length : ℕ}
    (ho : codingPos ≤ offset + WINDOWS_SIZE)
    (h : findMatch uncompressed size codingPos fuel offset = some (matchOffset, length)) :
    IsMatch uncompressed size codingPos matchOffset length := by
  induction fuel generalizing offset with
  | zero => simp [findMatch] at h
  | succ fuel ih =>
    rw [findMatch] at h
    split_ifs at h with h1
    dsimp only at h
    split_ifs at h with h2
    · exact ih (by omega) h
    · cases h
      obtain ⟨hb, hle, hmax, hsize⟩ := matchLength_spec MAX_MATCH_LENGTH
        (show ∀ j < 0, uncompressed (codingPos + j) = uncompressed (offset + j) by simp)
        (show offset + 0 ≤ codingPos by omega) (Nat.zero_le _) (Nat.zero_le (size - codingPos - 1))
      refine ⟨by omega, ⟨by omega, hmax⟩, by omega, fun j hj => ?_⟩
      rw [hb j hj]
      congr 2
      omega

lemma le_windowStart (codingPos : ℕ) : codingPos ≤ windowStart codingPos + WINDOWS_SIZE := by
  rw [windowStart]
  split_ifs <;> omega

end Search

/-- The copying loop extends what is put out so far by bytes that repeat at the distance. -/
lemma copyLoop_spec {n offset length : ℕ} (ho : offset + 1 ≤ n) (hs : n + length ≤ size)
    (hb : ∀ j < length, uncompressed (n + j) = uncompressed (n - (offset + 1) + j)) :
    copyLoop size offset length (firstN uncompressed n) = firstN uncompressed (n + length) := by
  induction length generalizing n with
  | zero => rfl
  | succ length ih =>
    have hlast : (firstN uncompressed n).getD (n - offset - 1) 0 = uncompressed n := by
      have := hb 0 (by omega)
      rw [getD_firstN _ (by omega), add_zero, add_zero] at *
      rw [this]
      congr 1
    rw [copyLoop, length_firstN, if_neg (by omega), hlast, ← firstN_succ,
      ih (by omega) (by omega) fun j hj => ?_]
    · congr 1
      omega
    · have := hb (j + 1) (by omega)
      rw [show n + 1 + j = n + (j + 1) by omega, this]
      congr 1
      omega

/-- The decompressor has read what the state has written. -/
structure InStep (uncompressed out : ℕ → UInt8) (e : Encoder) (codingPos : ℕ) (d : Decoder) :
    Prop where
  output : d.output = firstN uncompressed codingPos
  nibble : d.nibbleIndex = e.nibbleIndex
  index : (d.fetch out).inputIndex = e.compressed.length
  indicator : (d.fetch out).indicator = ival out e.ptrIndic
  bit : (d.fetch out).indicatorBit = 32 - e.indicBit % 32
  le : d.inputIndex ≤ e.compressed.length

@[simp] lemma fetch_output (d : Decoder) : (d.fetch out).output = d.output := by
  rw [Decoder.fetch]; split_ifs <;> rfl

@[simp] lemma fetch_nibbleIndex (d : Decoder) : (d.fetch out).nibbleIndex = d.nibbleIndex := by
  rw [Decoder.fetch]; split_ifs <;> rfl

/-- After a token and its tick; at the end of a word the next one is still to be fetched. -/
lemma inStep_tick {codingPos : ℕ} (hw : WellFormed e (e.indicBit % 32 + 1))
    (ho : d.output = firstN uncompressed codingPos) (hn : d.nibbleIndex = e.nibbleIndex)
    (hi : d.inputIndex = e.compressed.length) (hd : d.indicator = ival out e.ptrIndic)
    (hb : d.indicatorBit = 32 - e.indicBit % 32 - 1) :
    InStep uncompressed out e.tick codingPos d := by
  have hk : e.indicBit % 32 < 32 := Nat.mod_lt _ (by norm_num)
  rcases Nat.lt_or_ge (e.indicBit % 32) 31 with hk' | hk'
  · have hf : d.fetch out = d := by rw [Decoder.fetch, if_neg (by omega)]
    have he : (e.indicBit + 1) % 32 = e.indicBit % 32 + 1 := by omega
    rw [tick_of_lt hk']
    refine ⟨ho, hn, by rw [hf]; exact hi, by rw [hf]; exact hd, ?_, hi.le⟩
    rw [hf, hb]
    simp only [he]
    omega
  · have hf : d.fetch out = { d with
        indicator := ival out d.inputIndex
        inputIndex := d.inputIndex + 4
        indicatorBit := 32 } := by rw [Decoder.fetch, if_pos (by omega)]
    have hl := length_sival hw.room e.indic
    rw [tick_of_eq (by omega)]
    refine ⟨ho, hn, ?_, by rw [hf, hi], ?_, ?_⟩
    · rw [hf]
      simp only [List.length_append, hl, hi, List.length_cons, List.length_nil]
    · rw [hf]
      simp only
      omega
    · simp only [List.length_append, hl]
      omega

/-- The loop from its check on. -/
def resume (out : ℕ → UInt8) (inputSize size : ℕ) (d : Decoder) : List UInt8 :=
  if d.output.length < size ∧ d.inputIndex < inputSize then decompressLoop out inputSize size d
  else d.output

lemma decompressLoop_eq (d : Decoder) :
    decompressLoop out inputSize size d = resume out inputSize size (d.step out size) := by
  rw [decompressLoop, resume]

/-- From a decompressor in step with this state the whole string is put out. -/
def Decodes (uncompressed out : ℕ → UInt8) (size inputSize : ℕ) (e : Encoder) (codingPos : ℕ) :
    Prop :=
  ∀ d, InStep uncompressed out e codingPos d →
    resume out inputSize size d = firstN uncompressed size

lemma decodes_of_end : Decodes uncompressed out size inputSize e size := by
  intro d hd
  rw [resume, hd.output, length_firstN, if_neg (by omega)]

lemma decodes_of_step {codingPos : ℕ} (hpos : e.compressed.length < inputSize)
    (h : ∀ d, InStep uncompressed out e codingPos d → codingPos < size →
      resume out inputSize size (d.step out size) = firstN uncompressed size)
    (hle : codingPos ≤ size) : Decodes uncompressed out size inputSize e codingPos := by
  rcases hle.lt_or_eq with hlt | rfl
  · intro d hd
    have := hd.le
    rw [resume, hd.output, length_firstN, if_pos ⟨hlt, by omega⟩, decompressLoop_eq]
    exact h d hd hlt
  · exact decodes_of_end

lemma step_literal {codingPos : ℕ} {b : UInt8} (hw : WellFormed e (e.indicBit % 32))
    (hs : Settled out (e.putLiteral b) (e.indicBit % 32 + 1))
    (hb : b = uncompressed codingPos) (hd : InStep uncompressed out e codingPos d) :
    InStep uncompressed out (e.putLiteral b).tick (codingPos + 1) (d.step out size) := by
  obtain ⟨-, hbit⟩ := Settled.of_extends (extends_putLiteral hw b) hw (by norm_num) hs
  have hread := read_putLiteral hw hs
  have hstep : d.step out size = { d.fetch out with
      output := d.output ++ [out (d.fetch out).inputIndex]
      inputIndex := (d.fetch out).inputIndex + 1
      indicatorBit := (d.fetch out).indicatorBit - 1 } := by
    rw [Decoder.step]
    dsimp only
    rw [hd.indicator, hd.bit, if_pos hbit, fetch_output]
  rw [hstep]
  refine inStep_tick ((extends_putLiteral hw b).wellFormed hw (by norm_num)) ?_ ?_ ?_ ?_ ?_
  · rw [hd.output, hd.index, hread, hb, ← firstN_succ]
  · exact (fetch_nibbleIndex d).trans hd.nibble
  · simp [Encoder.putLiteral, hd.index]
  · exact hd.indicator
  · exact congrArg (· - 1) hd.bit

lemma step_match {codingPos matchOffset length : ℕ} (hw : WellFormed e (e.indicBit % 32))
    (hm : IsMatch uncompressed size codingPos matchOffset length)
    (hs : Settled out (e.putMatch matchOffset length)
      ((e.putMatch matchOffset length).indicBit % 32 + 1))
    (hd : InStep uncompressed out e codingPos d) :
    InStep uncompressed out (e.putMatch matchOffset length).tick (codingPos + length)
      (d.step out size) := by
  obtain ⟨ho1, ho2, ho3⟩ := hm.offset_mem
  obtain ⟨hl1, hl2⟩ := hm.length_mem
  have hfits := hm.fits
  have hext := extends_putMatch hw matchOffset hl1 hl2
  obtain ⟨-, hbit⟩ := Settled.of_extends hext hw le_rfl hs
  obtain ⟨hoff, hread⟩ := read_putMatch hw ⟨ho1, ho2⟩ hl1 hl2 hs
  have hstep : d.step out size = { d.fetch out with
      output := copyLoop size (matchOffset - 1) length d.output
      inputIndex := (e.putMatch matchOffset length).compressed.length
      nibbleIndex := (e.putMatch matchOffset length).nibbleIndex
      indicatorBit := (d.fetch out).indicatorBit - 1 } := by
    rw [Decoder.step]
    dsimp only
    rw [hd.indicator, hd.bit, if_neg (by rw [hbit]; norm_num), hd.index, fetch_nibbleIndex,
      hd.nibble, hread, hoff, fetch_output]
  rw [hstep]
  refine inStep_tick (hext.wellFormed hw le_rfl) ?_ rfl rfl ?_ ?_
  · rw [hd.output]
    refine copyLoop_spec (by omega) (by omega) fun j hj => ?_
    rw [hm.bytes j hj, Nat.sub_add_cancel ho1]
  · rw [hext.ptr]
    exact hd.indicator
  · rw [hext.bit]
    exact congrArg (· - 1) hd.bit

lemma length_le_tick (hw : WellFormed e (e.indicBit % 32 + 1)) :
    e.compressed.length ≤ e.tick.compressed.length := by
  rcases Nat.lt_or_ge (e.indicBit % 32) 31 with hk | hk
  · rw [tick_of_lt hk]
  · rw [tick_of_eq (by omega), List.length_append, length_sival hw.room]
    omega

/-- The output has settled this state, goes on behind it and is decoded from it. -/
structure Coded (uncompressed out : ℕ → UInt8) (size inputSize : ℕ) (e : Encoder)
    (codingPos : ℕ) : Prop where
  settled : Settled out e (e.indicBit % 32)
  length_lt : e.compressed.length < inputSize
  decodes : Decodes uncompressed out size inputSize e codingPos

/-- Back over one literal. It may be the byte past the end that a string of one byte is coded
with, which the decompressor never comes to. -/
lemma coded_of_literal {codingPos : ℕ} (hw : WellFormed e (e.indicBit % 32))
    (hle : codingPos ≤ size)
    (hs : Settled out (e.putLiteral (uncompressed codingPos)).tick
      ((e.putLiteral (uncompressed codingPos)).tick.indicBit % 32))
    (hlen : (e.putLiteral (uncompressed codingPos)).tick.compressed.length ≤ inputSize)
    (hd : codingPos < size → Decodes uncompressed out size inputSize
      (e.putLiteral (uncompressed codingPos)).tick (codingPos + 1)) :
    Coded uncompressed out size inputSize e codingPos := by
  have hext := extends_putLiteral hw (uncompressed codingPos)
  have hw' := hext.wellFormed hw (by norm_num)
  have hs' := hs.of_tick hw'
  have hlt : e.compressed.length < inputSize := by
    have := length_le_tick hw'
    simp only [Encoder.putLiteral, List.length_append, List.length_singleton] at this hlen
    omega
  refine ⟨(hs'.of_extends hext hw (by norm_num)).1, hlt, decodes_of_step hlt ?_ hle⟩
  intro d hstep hcp
  exact hd hcp _ (step_literal hw hs' rfl hstep)

lemma coded_of_match {codingPos matchOffset length : ℕ} (hw : WellFormed e (e.indicBit % 32))
    (hm : IsMatch uncompressed size codingPos matchOffset length)
    (hc : Coded uncompressed out size inputSize (e.putMatch matchOffset length).tick
      (codingPos + length)) :
    Coded uncompressed out size inputSize e codingPos := by
  obtain ⟨hl1, hl2⟩ := hm.length_mem
  have hfits := hm.fits
  have hext := extends_putMatch hw matchOffset hl1 hl2
  have hw' := hext.wellFormed hw le_rfl
  have hs' := hc.settled.of_tick hw'
  have hlt : e.compressed.length < inputSize :=
    (hext.length_le.trans (length_le_tick hw')).trans_lt hc.length_lt
  refine ⟨(hs'.of_extends hext hw le_rfl).1, hlt, decodes_of_step hlt ?_ (by omega)⟩
  intro d hstep _
  exact hc.decodes _ (step_match hw hm hs' hstep)

/-- The second loop, from its finished output back to its start. -/
lemma tailLoop_spec (uncompressed out : ℕ → UInt8) (inputSize : ℕ) {fuel codingPos : ℕ}
    (hw : WellFormed e (e.indicBit % 32))
    (hle : codingPos ≤ size) (hf : size - codingPos ≤ fuel) (hf1 : 1 ≤ fuel) :
    let f := tailLoop uncompressed size fuel codingPos e
    WellFormed f (f.indicBit % 32) ∧
      (Settled out f (f.indicBit % 32) → f.compressed.length ≤ inputSize →
        Coded uncompressed out size inputSize e codingPos) := by
  induction fuel generalizing codingPos e with
  | zero => omega
  | succ fuel ih =>
    have hw' := ((extends_putLiteral hw (uncompressed codingPos)).wellFormed hw
      (by norm_num)).tick
    rw [tailLoop]
    dsimp only
    split_ifs with hmore
    · obtain ⟨hwf, hback⟩ := ih hw' (show codingPos + 1 ≤ size by omega) (by omega) (by omega)
      refine ⟨hwf, fun hs hlen => ?_⟩
      have hc := hback hs hlen
      exact coded_of_literal hw hle hc.settled hc.length_lt.le fun _ => hc.decodes
    · refine ⟨hw', fun hs hlen => coded_of_literal hw hle hs hlen fun hcp => ?_⟩
      obtain rfl : codingPos + 1 = size := by omega
      exact decodes_of_end

/-- The main loop, likewise. -/
lemma compressLoop_spec (uncompressed out : ℕ → UInt8) (inputSize fuel : ℕ)
    {codingPos byteLeft : ℕ} (hw : WellFormed e (e.indicBit % 32)) (hlt : codingPos < size) (hleft : byteLeft = size - codingPos) :
    let r := compressLoop uncompressed size fuel codingPos byteLeft e
    WellFormed r.2 (r.2.indicBit % 32) ∧ r.1 ≤ size ∧
      (Coded uncompressed out size inputSize r.2 r.1 →
        Coded uncompressed out size inputSize e codingPos) := by
  induction fuel generalizing codingPos byteLeft e with
  | zero => exact ⟨hw, hlt.le, id⟩
  | succ fuel ih =>
    rw [compressLoop]
    rcases hfind : findMatch uncompressed size codingPos WINDOWS_SIZE (windowStart codingPos)
      with _ | ⟨matchOffset, length⟩
    · -- a literal
      have hw' := ((extends_putLiteral hw (uncompressed codingPos)).wellFormed hw
        (by norm_num)).tick
      dsimp only
      split_ifs with hmore
      · obtain ⟨hwf, hle, hback⟩ := ih hw' (show codingPos + 1 < size by omega)
          (show byteLeft - 1 = size - (codingPos + 1) by omega)
        refine ⟨hwf, hle, fun hc => ?_⟩
        have hc' := hback hc
        exact coded_of_literal hw hlt.le hc'.settled hc'.length_lt.le fun _ => hc'.decodes
      · exact ⟨hw', hlt, fun hc =>
          coded_of_literal hw hlt.le hc.settled hc.length_lt.le fun _ => hc.decodes⟩
    · -- a match
      have hm := findMatch_spec (le_windowStart codingPos) hfind
      obtain ⟨hl1, hl2⟩ := hm.length_mem
      have hfits := hm.fits
      have hw' := ((extends_putMatch hw matchOffset hl1 hl2).wellFormed hw
        le_rfl).tick
      dsimp only
      split_ifs with hmore
      · obtain ⟨hwf, hle, hback⟩ := ih hw' (show codingPos + length < size by omega)
          (show byteLeft - length = size - (codingPos + length) by omega)
        exact ⟨hwf, hle, fun hc => coded_of_match hw hm (hback hc)⟩
      · exact ⟨hw', hfits.le, fun hc => coded_of_match hw hm hc⟩

lemma wellFormed_init : WellFormed Encoder.init (Encoder.init.indicBit % 32) :=
  ⟨by simp [Encoder.init], by simp [Encoder.init], by simp [Encoder.init],
    by simp [Encoder.init], by simp [Encoder.init]⟩

lemma inStep_init : InStep uncompressed out Encoder.init 0 Decoder.init := by
  have hf : Decoder.init.fetch out = ⟨4, [], 0, ival out 0, 32⟩ := rfl
  refine ⟨rfl, rfl, ?_, ?_, ?_, ?_⟩
  · rw [hf]; rfl
  · rw [hf]; rfl
  · rw [hf]; rfl
  · simp [Decoder.init, Encoder.init]

/-- The finished output settles the last state: only the bit of the terminator is added. -/
lemma settled_finished (out : ℕ → UInt8) (hw : WellFormed e (e.indicBit % 32))
    (ho : ∀ i < e.compressed.length, out i =
      (sival e.compressed e.ptrIndic
        (e.indic ||| 1 <<< (32 - (e.indicBit % 32 + 1)))).getD i 0) :
    Settled out e (e.indicBit % 32) := by
  have hk : e.indicBit % 32 < 32 := Nat.mod_lt _ (by norm_num)
  have hroom := hw.room
  have hlow := hw.low
  have hlt := hw.indic_lt
  rw [or_bit hk hw.low] at ho
  have hexp : 32 - e.indicBit % 32 = (32 - (e.indicBit % 32 + 1)) + 1 := by omega
  refine ⟨fun i hi hw' _ => by rw [ho i hi, getD_sival_out hw.room _ hw'], fun hn => ?_, ?_⟩
  · obtain ⟨hnl, hno⟩ := hw.nibble hn
    rw [ho _ hnl, getD_sival_out hw.room _ hno]
  · have hext : Extends e { e with indic := e.indic + 2 ^ (32 - (e.indicBit % 32 + 1)) } 1 :=
      ⟨rfl, rfl, le_rfl, fun _ _ _ => rfl, fun _ => rfl, .inr (.inl rfl), by simp⟩
    have hsum := (hext.wellFormed hw le_rfl).indic_lt
    rw [ival_sival hw.room hsum fun i _ hi => ho i (by omega)]
    rw [hexp, pow_succ] at hlow ⊢
    obtain ⟨q, hq⟩ := Nat.dvd_of_mod_eq_zero hlow
    rw [hq]
    generalize hp : 2 ^ (32 - (e.indicBit % 32 + 1)) = p
    have hpos : 0 < p := by rw [← hp]; positivity
    rw [Nat.mul_div_cancel_left _ (by omega), show p * 2 * q + p = p + p * 2 * q by ring,
      Nat.add_mul_div_left _ _ (by omega), Nat.div_eq_of_lt (by omega), zero_add]

/-- **Round trip.** Run on the compressed form of a string of one byte or more, whatever the
memory behind it holds, with the size of the string as the size of the output, the decompressor
returns that size and puts out the string. -/
theorem lzxpressDecompress_compress (uncompressed out : ℕ → UInt8) (size : ℕ) (h1 : 1 ≤ size)
    (hout : ∀ i (h : i < (lzxpressCompress uncompressed size).length),
      out i = (lzxpressCompress uncompressed size)[i]) :
    (lzxpressDecompress out (lzxpressCompress uncompressed size).length size).length = size ∧
      lzxpressDecompress out (lzxpressCompress uncompressed size).length size =
        firstN uncompressed size := by
  suffices h : lzxpressDecompress out (lzxpressCompress uncompressed size).length size =
      firstN uncompressed size from ⟨by rw [h, length_firstN], h⟩
  generalize hz : (lzxpressCompress uncompressed size).length = inputSize
  obtain ⟨hw1, hle, hmain⟩ := compressLoop_spec uncompressed out inputSize size wellFormed_init h1 rfl
  rcases hr : compressLoop uncompressed size size 0 size .init with ⟨codingPos, e⟩
  rw [Nat.sub_zero, hr] at hw1 hle hmain
  obtain ⟨hw2, htail⟩ := tailLoop_spec uncompressed out inputSize hw1 hle (Nat.sub_le _ _) h1
  have hcomp : lzxpressCompress uncompressed size =
      sival (tailLoop uncompressed size size codingPos e).compressed
        (tailLoop uncompressed size size codingPos e).ptrIndic
        ((tailLoop uncompressed size size codingPos e).indic ||| 1 <<<
          (32 - ((tailLoop uncompressed size size codingPos e).indicBit % 32 + 1))) := by
    rw [lzxpressCompress, if_neg (by omega), hr]
  have hlen := length_sival hw2.room
    ((tailLoop uncompressed size size codingPos e).indic ||| 1 <<<
      (32 - ((tailLoop uncompressed size size codingPos e).indicBit % 32 + 1)))
  rw [← hcomp, hz] at hlen
  have hsettled := settled_finished out hw2 fun i hi => by
    rw [← hlen, ← hz] at hi
    rw [hout i hi, ← hcomp]
    simp [List.getD, hi]
  have hcoded := hmain (htail hsettled hlen.ge)
  rw [lzxpressDecompress]
  have hstart := hcoded.decodes Decoder.init inStep_init
  have hpos : 0 < inputSize := (Nat.zero_le _).trans_lt hcoded.length_lt
  rw [resume, if_pos ⟨h1, hpos⟩] at hstart
  exact hstart

theorem lzxpressDecompress_compress_abab :
    (lzxpressDecompress
        (fun i => (lzxpressCompress (fun i => if i % 2 = 0 then 0x61 else 0x62) 40).getD i 7)
        (lzxpressCompress (fun i => if i % 2 = 0 then 0x61 else 0x62) 40).length 40).length = 40 :=
  (lzxpressDecompress_compress _ _ 40 (by norm_num) fun i h => by simp [List.getD, h]).1

/-- What bounds the buffer: no token takes more bytes than it stands for, and 32 tokens share
one more word. -/
structure Bounded (e : Encoder) (codingPos : ℕ) : Prop where
  bits : e.indicBit ≤ codingPos
  length : e.compressed.length ≤ 4 + codingPos + 4 * (e.indicBit / 32)

lemma Bounded.tick {codingPos : ℕ} (hw : WellFormed e (e.indicBit % 32 + 1))
    (h1 : e.indicBit < codingPos)
    (h2 : e.compressed.length ≤ 4 + codingPos + 4 * (e.indicBit / 32)) :
    Bounded e.tick codingPos := by
  rcases Nat.lt_or_ge (e.indicBit % 32) 31 with hk | hk
  · rw [tick_of_lt hk]
    exact ⟨h1, by simp only; omega⟩
  · have hb := hw.bits_le
    rw [tick_of_eq (by omega)]
    refine ⟨h1, ?_⟩
    simp only [List.length_append, length_sival hw.room, List.length_cons, List.length_nil]
    omega

lemma Bounded.literal {codingPos : ℕ} (hw : WellFormed e (e.indicBit % 32))
    (h : Bounded e codingPos) (b : UInt8) : Bounded (e.putLiteral b).tick (codingPos + 1) := by
  have hbits := h.bits
  have hlen := h.length
  refine .tick ((extends_putLiteral hw b).wellFormed hw (by norm_num)) ?_ ?_
  · simp only [Encoder.putLiteral]
    omega
  · simp only [Encoder.putLiteral, List.length_append, List.length_singleton]
    omega

lemma Bounded.match {codingPos length : ℕ} (hw : WellFormed e (e.indicBit % 32))
    (h : Bounded e codingPos) (matchOffset : ℕ) (h3 : 3 ≤ length) (hmax : length ≤ MAX_MATCH_LENGTH) :
    Bounded (e.putMatch matchOffset length).tick (codingPos + length) := by
  have hbits := h.bits
  have hlen := h.length
  have hext := extends_putMatch hw matchOffset h3 hmax
  have hextra : (extraByte length).length ≤ 1 := by
    rw [extraByte]
    split_ifs <;> simp
  refine .tick (hext.wellFormed hw le_rfl) (by rw [hext.bit]; omega) ?_
  rw [hext.bit]
  rcases Nat.lt_or_ge CLASSIC_MATCH_LENGTH length with hl | hl
  · have hl' := hl
    rw [CLASSIC_MATCH_LENGTH] at hl'
    by_cases hn : e.nibbleIndex = 0
    · rw [putMatch_half hw hl hmax hn]
      simp only [List.length_append, length_le, List.length_cons]
      omega
    · rw [putMatch_shared hw hl hmax hn]
      simp only [List.length_append, length_le, length_setNibble]
      omega
  · rw [putMatch_short hw h3 hl]
    simp only [List.length_append, length_le]
    omega

lemma tailLoop_bounded (uncompressed : ℕ → UInt8) (fuel : ℕ) {codingPos : ℕ}
    (hw : WellFormed e (e.indicBit % 32)) (h : Bounded e codingPos) (hle : codingPos ≤ size) :
    ∃ n ≤ size + 1, Bounded (tailLoop uncompressed size fuel codingPos e) n := by
  induction fuel generalizing codingPos e with
  | zero => exact ⟨codingPos, by omega, h⟩
  | succ fuel ih =>
    have h' := h.literal hw (uncompressed codingPos)
    rw [tailLoop]
    split_ifs with hmore
    · exact ih ((extends_putLiteral hw _).wellFormed hw (by norm_num)).tick h' hmore.le
    · exact ⟨codingPos + 1, by omega, h'⟩

lemma compressLoop_bounded (uncompressed : ℕ → UInt8) (size fuel : ℕ)
    {codingPos byteLeft : ℕ} (hw : WellFormed e (e.indicBit % 32)) (h : Bounded e codingPos) :
    Bounded (compressLoop uncompressed size fuel codingPos byteLeft e).2
      (compressLoop uncompressed size fuel codingPos byteLeft e).1 := by
  induction fuel generalizing codingPos byteLeft e with
  | zero => exact h
  | succ fuel ih =>
    rw [compressLoop]
    rcases hfind : findMatch uncompressed size codingPos WINDOWS_SIZE (windowStart codingPos)
      with _ | ⟨matchOffset, length⟩
    · have h' := h.literal hw (uncompressed codingPos)
      dsimp only
      split_ifs
      · exact ih ((extends_putLiteral hw _).wellFormed hw (by norm_num)).tick h'
      · exact h'
    · obtain ⟨hl1, hl2⟩ := (findMatch_spec (le_windowStart codingPos) hfind).length_mem
      have h' := h.match hw matchOffset hl1 hl2
      dsimp only
      split_ifs
      · exact ih ((extends_putMatch hw matchOffset hl1 hl2).wellFormed hw le_rfl).tick h'
      · exact h'

/-- The compressed form of a string of up to 2³¹ bytes has an index of 32 bits throughout. -/
lemma length_lzxpressCompress_lt (hsize : size ≤ 2 ^ 31) :
    (lzxpressCompress uncompressed size).length < 2 ^ 32 := by
  rw [lzxpressCompress]
  split_ifs with h0
  · simp
  · have hinit : Bounded Encoder.init 0 := ⟨le_rfl, by simp [Encoder.init]⟩
    obtain ⟨hw1, hle, -⟩ := compressLoop_spec uncompressed uncompressed size size
      wellFormed_init (Nat.pos_of_ne_zero h0) (Nat.sub_zero size).symm
    have hb1 : Bounded (compressLoop uncompressed size size 0 size .init).2 _ :=
      compressLoop_bounded uncompressed size size wellFormed_init hinit
    rcases hr : compressLoop uncompressed size size 0 size .init with ⟨codingPos, e⟩
    rw [hr] at hw1 hle hb1
    obtain ⟨n, hn, hb2⟩ := tailLoop_bounded uncompressed size hw1 hb1 hle
    obtain ⟨hw2, -⟩ := tailLoop_spec uncompressed uncompressed size hw1 hle (Nat.sub_le _ _)
      (Nat.pos_of_ne_zero h0)
    have hlen := hb2.length
    have hbits := hb2.bits
    dsimp only at hlen hbits hw2 ⊢
    rw [length_sival hw2.room]
    omega

end SteepSystem.Lzxpress.RoundTrip
