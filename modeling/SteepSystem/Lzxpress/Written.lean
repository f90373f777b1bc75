import SteepSystem.Lzxpress.Model
import SteepSystem.Lib.Prefix

/-!
The bytes of the finished output that a state of the compressor has already settled: all before
`compressed_pos` but the current word of indicator bits and the upper half of a shared byte.
Each step backward from the finished output keeps them and tells what the step has added.
-/

namespace SteepSystem.Lzxpress.Written

open SteepSystem.Lib.Bytes SteepSystem.Lib.Prefix SteepSystem.Lzxpress.Model

/-- `bits` indicator bits are in use, and the half-filled byte is not in their word. -/
structure WellFormed (e : Encoder) (bits : ℕ) : Prop where
  bits_le : bits ≤ 32
  room : e.ptrIndic + 4 ≤ e.compressed.length
  nibble : e.nibbleIndex ≠ 0 → e.nibbleIndex < e.compressed.length ∧
    (e.nibbleIndex < e.ptrIndic ∨ e.ptrIndic + 4 ≤ e.nibbleIndex)
  indic_lt : e.indic < 2 ^ 32
  low : e.indic % 2 ^ (32 - bits) = 0

/-- `out` agrees with what the state has settled. -/
structure Settled (out : ℕ → UInt8) (e : Encoder) (bits : ℕ) : Prop where
  bytes : ∀ i < e.compressed.length, (i < e.ptrIndic ∨ e.ptrIndic + 4 ≤ i) →
    (e.nibbleIndex ≠ 0 → i ≠ e.nibbleIndex) → out i = e.compressed.getD i 0
  shared : e.nibbleIndex ≠ 0 →
    (out e.nibbleIndex).toNat % 16 = (e.compressed.getD e.nibbleIndex 0).toNat % 16
  word : ival out e.ptrIndic / 2 ^ (32 - bits) = e.indic / 2 ^ (32 - bits)

section Words

/-- One more bit of a word: the bits above it are settled as before, and it is read as set. -/
lemma word_step {w indic k flag : ℕ} (hk : k < 32) (hflag : flag ≤ 1)
    (hlow : indic % 2 ^ (32 - k) = 0)
    (hw : w / 2 ^ (32 - (k + 1)) = (indic + flag * 2 ^ (32 - (k + 1))) / 2 ^ (32 - (k + 1))) :
    w / 2 ^ (32 - k) = indic / 2 ^ (32 - k) ∧ (w >>> (32 - k - 1)) &&& 1 = flag := by
  have hexp : 32 - k = (32 - (k + 1)) + 1 := by omega
  have hexp' : 32 - k - 1 = 32 - (k + 1) := by omega
  rw [hexp'] 
  rw [hexp, pow_succ] at hlow ⊢
  generalize hp : 2 ^ (32 - (k + 1)) = p at *
  have hpos : 0 < p := by rw [← hp]; positivity
  obtain ⟨q, rfl⟩ := Nat.dvd_of_mod_eq_zero hlow
  have hq : (p * 2 * q + flag * p) / p = 2 * q + flag := by
    rw [show p * 2 * q + flag * p = p * (2 * q + flag) by ring, Nat.mul_div_cancel_left _ hpos]
  rw [hq] at hw
  rw [← Nat.div_div_eq_div_mul, ← Nat.div_div_eq_div_mul, hw, mul_assoc,
    Nat.mul_div_cancel_left _ hpos, Nat.shiftRight_eq_div_pow, hp, hw, Nat.and_one_is_mod]
  omega

lemma or_bit {indic k : ℕ} (hk : k < 32) (hlow : indic % 2 ^ (32 - k) = 0) :
    indic ||| 1 <<< (32 - (k + 1)) = indic + 2 ^ (32 - (k + 1)) := by
  obtain ⟨q, rfl⟩ := Nat.dvd_of_mod_eq_zero hlow
  have hlt : 2 ^ (32 - (k + 1)) < 2 ^ (32 - k) := Nat.pow_lt_pow_right (by norm_num) (by omega)
  rw [Nat.one_shiftLeft, Nat.two_pow_add_eq_or_of_lt hlt]

/-- The metadata word of a match: its distance above three bits. -/
lemma metadata_eq {a b : ℕ} (hb : b < 8) : a <<< 3 ||| b = 8 * a + b := by
  rw [Nat.shiftLeft_eq, mul_comm, ← Nat.two_pow_add_eq_or_of_lt (i := 3) (by omega)]

/-- A byte with its upper half set. -/
lemma nibble_toNat (c : UInt8) {v : ℕ} (hv : v ≤ 15) :
    ((c &&& 0xF) ||| UInt8.ofNat (v * 16)).toNat = 16 * v + c.toNat % 16 := by
  have hc : c.toNat &&& 15 = c.toNat % 16 := Nat.and_two_pow_sub_one_eq_mod c.toNat 4
  have hv' : v * 16 % 2 ^ 8 = 2 ^ 4 * v := by omega
  rw [UInt8.toNat_or, UInt8.toNat_and, UInt8.toNat_ofNat', hv', Nat.or_comm]
  simp only [UInt8.reduceToNat, hc]
  rw [← Nat.two_pow_add_eq_or_of_lt (i := 4) (by omega)]

end Words

section Sival

variable {buf : List UInt8} {pos : ℕ}

lemma length_sival (h : pos + 4 ≤ buf.length) (v : ℕ) : (sival buf pos v).length = buf.length := by
  simp only [sival, List.length_append, List.length_take, length_le, List.length_drop]
  omega

lemma getD_sival_out (h : pos + 4 ≤ buf.length) (v : ℕ) {i : ℕ} (hi : i < pos ∨ pos + 4 ≤ i) :
    (sival buf pos v).getD i 0 = buf.getD i 0 := by
  have ht : (buf.take pos).length = pos := by rw [List.length_take]; omega
  rw [sival, List.append_assoc]
  rcases hi with hi | hi
  · rw [getD_append_left (by omega)]
    simp [List.getD, hi]
  · rw [getD_append_right (by omega), getD_append_right (by rw [length_le]; omega), length_le, ht]
    simp only [List.getD, List.getElem?_drop]
    congr 2
    omega

/-- A word that is written is the word that is read. -/
lemma ival_sival (h : pos + 4 ≤ buf.length) {v : ℕ} (hv : v < 2 ^ 32) {out : ℕ → UInt8}
    (ho : ∀ i, pos ≤ i → i < pos + 4 → out i = (sival buf pos v).getD i 0) :
    ival out pos = v := by
  have ht : (buf.take pos).length = pos := by rw [List.length_take]; omega
  have hread : ∀ j < 4, out (pos + j) = (le 4 v).getD j 0 := by
    intro j hj
    rw [ho _ (by omega) (by omega), sival, List.append_assoc, getD_append_right (by omega),
      getD_append_left (by rw [length_le]; omega), ht, Nat.add_sub_cancel_left]
  have h4 : ofLE (le 4 v) = v := ofLE_le_of_lt (by norm_num; omega)
  have h0 := hread 0 (by norm_num)
  rw [add_zero] at h0
  rw [ival, h0, hread 1 (by norm_num), hread 2 (by norm_num), hread 3 (by norm_num)]
  simpa [le] using h4

end Sival

lemma tick_of_lt {e : Encoder} (h : e.indicBit % 32 < 31) :
    e.tick = { e with indicBit := e.indicBit + 1 } := by
  rw [Encoder.tick]
  exact if_neg (by omega)

lemma tick_of_eq {e : Encoder} (h : e.indicBit % 32 = 31) :
    e.tick = ⟨sival e.compressed e.ptrIndic e.indic ++ [0, 0, 0, 0], e.compressed.length, 0,
      e.indicBit + 1, e.nibbleIndex⟩ := by
  rw [Encoder.tick]
  exact if_pos (by omega)

variable {out : ℕ → UInt8} {e : Encoder}

lemma WellFormed.tick (h : WellFormed e (e.indicBit % 32 + 1)) :
    WellFormed e.tick (e.tick.indicBit % 32) := by
  have hb := h.bits_le
  rcases Nat.lt_or_ge (e.indicBit % 32) 31 with hk | hk
  · have he : (e.indicBit + 1) % 32 = e.indicBit % 32 + 1 := by omega
    rw [tick_of_lt hk]
    refine ⟨by omega, h.room, h.nibble, h.indic_lt, ?_⟩
    simp only [he]
    exact h.low
  · rw [tick_of_eq (by omega)]
    have hroom := h.room
    have hl := length_sival h.room e.indic
    refine ⟨by omega, by simp [hl], fun hn => ?_, by norm_num, by simp⟩
    have := h.nibble hn
    simp only [List.length_append, hl]
    omega

/-- Back over a tick: a word that was filled in is settled whole. -/
lemma Settled.of_tick (hw : WellFormed e (e.indicBit % 32 + 1))
    (h : Settled out e.tick (e.tick.indicBit % 32)) : Settled out e (e.indicBit % 32 + 1) := by
  have hb := hw.bits_le
  rcases Nat.lt_or_ge (e.indicBit % 32) 31 with hk | hk
  · have he : (e.indicBit + 1) % 32 = e.indicBit % 32 + 1 := by omega
    rw [tick_of_lt hk] at h
    refine ⟨h.bytes, h.shared, ?_⟩
    have := h.word
    simp only [he] at this
    exact this
  · have hroom := hw.room
    have hl := length_sival hw.room e.indic
    rw [tick_of_eq (by omega)] at h
    have hbytes : ∀ i < e.compressed.length, (e.nibbleIndex ≠ 0 → i ≠ e.nibbleIndex) →
        out i = (sival e.compressed e.ptrIndic e.indic).getD i 0 := by
      intro i hi hn
      have := h.bytes i (by simp [hl]; omega) (.inl hi) hn
      rwa [getD_append_left (by omega)] at this
    refine ⟨fun i hi hw' hn => ?_, fun hn => ?_, ?_⟩
    · rw [hbytes i hi hn, getD_sival_out hw.room _ hw']
    · have hin := hw.nibble hn
      have := h.shared hn
      simp only at this
      rw [this, getD_append_left (by omega), getD_sival_out hw.room _ hin.2]
    · have hival : ival out e.ptrIndic = e.indic := by
        refine ival_sival hw.room hw.indic_lt fun i h1 h2 => hbytes i (by omega) fun hn => ?_
        have := hw.nibble hn
        omega
      rw [hival]

/-- What putting a token does to the state: it adds bytes at the end, changes no more than the
upper half of the shared byte before them, and appends one indicator bit. -/
structure Extends (e e' : Encoder) (flag : ℕ) : Prop where
  ptr : e'.ptrIndic = e.ptrIndic
  bit : e'.indicBit = e.indicBit
  length_le : e.compressed.length ≤ e'.compressed.length
  kept : ∀ i < e.compressed.length, (e.nibbleIndex ≠ 0 → i ≠ e.nibbleIndex) →
    e'.compressed.getD i 0 = e.compressed.getD i 0
  half : e.nibbleIndex ≠ 0 → (e'.compressed.getD e.nibbleIndex 0).toNat % 16 =
    (e.compressed.getD e.nibbleIndex 0).toNat % 16
  nibble : e'.nibbleIndex = 0 ∨ e'.nibbleIndex = e.nibbleIndex ∨
    (e.compressed.length ≤ e'.nibbleIndex ∧ e'.nibbleIndex < e'.compressed.length)
  indic : e'.indic = e.indic + flag * 2 ^ (32 - (e.indicBit % 32 + 1))

variable {e' : Encoder} {flag : ℕ}

lemma Extends.wellFormed (h : Extends e e' flag) (hw : WellFormed e (e.indicBit % 32))
    (hf : flag ≤ 1) : WellFormed e' (e'.indicBit % 32 + 1) := by
  have hk : e.indicBit % 32 < 32 := Nat.mod_lt _ (by norm_num)
  have hl := h.length_le
  have hr := hw.room
  have hlow := hw.low
  have hlt := hw.indic_lt
  have hexp : 32 - e.indicBit % 32 = (32 - (e.indicBit % 32 + 1)) + 1 := by omega
  have hpow : 2 ^ 32 = 2 ^ (e.indicBit % 32) * (2 ^ (32 - (e.indicBit % 32 + 1)) * 2) := by
    rw [← pow_succ, ← pow_add]
    congr 1
    omega
  rw [hexp, pow_succ] at hlow
  obtain ⟨q, hq⟩ := Nat.dvd_of_mod_eq_zero hlow
  refine ⟨by rw [h.bit]; omega, by rw [h.ptr]; omega, fun hn => ?_, ?_, ?_⟩
  · rw [h.ptr]
    rcases h.nibble with h0 | h0 | h0
    · exact absurd h0 hn
    · rw [h0] at hn ⊢
      have := hw.nibble hn
      omega
    · omega
  · rw [h.indic, hpow, hq]
    rw [hpow, hq] at hlt
    generalize 2 ^ (32 - (e.indicBit % 32 + 1)) = p at *
    generalize 2 ^ (e.indicBit % 32) = r at *
    have hp : 0 < p * 2 := Nat.pos_of_ne_zero fun h0 => by rw [h0] at hlt; simp at hlt
    have hqr : q + 1 ≤ r := by
      rw [mul_comm r] at hlt
      exact Nat.lt_of_mul_lt_mul_left hlt
    calc p * 2 * q + flag * p < p * 2 * q + p * 2 := by nlinarith
      _ = (q + 1) * (p * 2) := by ring
      _ ≤ r * (p * 2) := Nat.mul_le_mul_right _ hqr
  · rw [h.indic, h.bit, hq, show ∀ p : ℕ, p * 2 * q + flag * p = p * (2 * q + flag) by intro p; ring]
    exact Nat.mul_mod_right _ _

/-- Back over a token: the state before it is settled too, and its bit is read. -/
lemma Settled.of_extends (h : Extends e e' flag) (hw : WellFormed e (e.indicBit % 32))
    (hf : flag ≤ 1) (hs : Settled out e' (e'.indicBit % 32 + 1)) :
    Settled out e (e.indicBit % 32) ∧
      (ival out e.ptrIndic >>> (32 - e.indicBit % 32 - 1)) &&& 1 = flag := by
  have hk : e.indicBit % 32 < 32 := Nat.mod_lt _ (by norm_num)
  have hword := hs.word
  rw [h.ptr, h.bit, h.indic] at hword
  obtain ⟨hq, hbit⟩ := word_step hk hf hw.low hword
  have hl := h.length_le
  refine ⟨⟨fun i hi ho hn => ?_, fun hn => ?_, hq⟩, hbit⟩
  · rw [hs.bytes i (by omega) (by rw [h.ptr]; exact ho), h.kept i hi hn]
    intro hn'
    rcases h.nibble with h0 | h0 | h0
    · exact absurd h0 hn'
    · rw [h0] at hn' ⊢
      exact hn hn'
    · omega
  · obtain ⟨hnl, hno⟩ := hw.nibble hn
    rw [← h.half hn]
    rcases h.nibble with h0 | h0 | h0
    · rw [hs.bytes _ (by omega) (by rw [h.ptr]; exact hno) fun hn' => absurd h0 hn']
    · have := hs.shared (by rw [h0]; exact hn)
      rwa [h0] at this
    · rw [hs.bytes _ (by omega) (by rw [h.ptr]; exact hno) (by omega)]

/-- The bytes that a token adds, but for the one it leaves half filled. -/
lemma Settled.added (h : Extends e e' flag) (hw : WellFormed e (e.indicBit % 32))
    (hs : Settled out e' (e'.indicBit % 32 + 1)) {i : ℕ} (hi : e.compressed.length ≤ i)
    (hi' : i < e'.compressed.length) (hn : e'.nibbleIndex ≠ 0 → i ≠ e'.nibbleIndex) :
    out i = e'.compressed.getD i 0 := by
  have := hw.room
  exact hs.bytes i hi' (by rw [h.ptr]; omega) hn

lemma extends_putLiteral (hw : WellFormed e (e.indicBit % 32)) (b : UInt8) :
    Extends e (e.putLiteral b) 0 where
  ptr := rfl
  bit := rfl
  length_le := by simp [Encoder.putLiteral]
  kept i hi _ := getD_append_left hi 0
  half hn := by rw [Encoder.putLiteral, getD_append_left (hw.nibble hn).1]
  nibble := .inr (.inl rfl)
  indic := by simp [Encoder.putLiteral]

lemma read_putLiteral (hw : WellFormed e (e.indicBit % 32)) {b : UInt8}
    (hs : Settled out (e.putLiteral b) (e.indicBit % 32 + 1)) :
    out e.compressed.length = b := by
  rw [Settled.added (extends_putLiteral hw b) hw hs le_rfl (by simp [Encoder.putLiteral])]
  · rw [Encoder.putLiteral, getD_append_right le_rfl]
    simp
  · intro hn
    exact (hw.nibble hn).1.ne'

/-- The half byte for the length of a long match, and the byte after it if there is one. -/
def halfByte (length : ℕ) : ℕ := if length ≤ MIDDLE_MATCH_LENGTH then length - 10 else 15

def extraByte (length : ℕ) : List UInt8 :=
  if length ≤ MIDDLE_MATCH_LENGTH then [] else [UInt8.ofNat (length - 25)]

lemma halfByte_le (length : ℕ) : halfByte length ≤ 15 := by
  rw [halfByte, MIDDLE_MATCH_LENGTH]
  split_ifs <;> omega

lemma putLength_eq (e : Encoder) {length : ℕ} (hmax : length ≤ MAX_MATCH_LENGTH) :
    e.putLength length =
      if e.nibbleIndex = 0 then
        (e.compressed, UInt8.ofNat (halfByte length) :: extraByte length)
      else (e.setNibble (halfByte length), extraByte length) := by
  rw [Encoder.putLength, halfByte, extraByte, if_pos hmax]
  have hand : length ≤ MIDDLE_MATCH_LENGTH → (length - 10) &&& 15 = length - 10 := by
    intro h
    rw [MIDDLE_MATCH_LENGTH] at h
    rw [Nat.and_two_pow_sub_one_eq_mod (length - 10) 4]
    omega
  split_ifs with h1 h2
  · simp [hand h1]
  · rfl
  · rfl
  · rfl

lemma putMatch_short (hw : WellFormed e (e.indicBit % 32)) {matchOffset length : ℕ}
    (h3 : 3 ≤ length) (hs : length ≤ CLASSIC_MATCH_LENGTH) :
    e.putMatch matchOffset length =
      ⟨e.compressed ++ le 2 (8 * (matchOffset - 1) + (length - 3)), e.ptrIndic,
        e.indic + 2 ^ (32 - (e.indicBit % 32 + 1)), e.indicBit, e.nibbleIndex⟩ := by
  rw [Encoder.putMatch]
  dsimp only
  rw [if_pos hs, or_bit (Nat.mod_lt _ (by norm_num)) hw.low,
    metadata_eq (by rw [CLASSIC_MATCH_LENGTH] at hs; omega)]

lemma putMatch_half (hw : WellFormed e (e.indicBit % 32)) {matchOffset length : ℕ}
    (hl : CLASSIC_MATCH_LENGTH < length) (hmax : length ≤ MAX_MATCH_LENGTH)
    (hn : e.nibbleIndex = 0) :
    e.putMatch matchOffset length =
      ⟨e.compressed ++ (le 2 (8 * (matchOffset - 1) + 7) ++
          (UInt8.ofNat (halfByte length) :: extraByte length)), e.ptrIndic,
        e.indic + 2 ^ (32 - (e.indicBit % 32 + 1)), e.indicBit, e.compressed.length + 2⟩ := by
  rw [Encoder.putMatch]
  dsimp only
  rw [if_neg (by omega), or_bit (Nat.mod_lt _ (by norm_num)) hw.low, metadata_eq (by norm_num),
    putLength_eq e hmax, if_pos hn, if_pos hn, List.append_assoc]

lemma putMatch_shared (hw : WellFormed e (e.indicBit % 32)) {matchOffset length : ℕ}
    (hl : CLASSIC_MATCH_LENGTH < length) (hmax : length ≤ MAX_MATCH_LENGTH)
    (hn : e.nibbleIndex ≠ 0) :
    e.putMatch matchOffset length =
      ⟨e.setNibble (halfByte length) ++ (le 2 (8 * (matchOffset - 1) + 7) ++ extraByte length),
        e.ptrIndic, e.indic + 2 ^ (32 - (e.indicBit % 32 + 1)), e.indicBit, 0⟩ := by
  rw [Encoder.putMatch]
  dsimp only
  rw [if_neg (by omega), or_bit (Nat.mod_lt _ (by norm_num)) hw.low, metadata_eq (by norm_num),
    putLength_eq e hmax, if_neg hn, if_neg hn, List.append_assoc]

@[simp] lemma length_setNibble (e : Encoder) (v : ℕ) :
    (e.setNibble v).length = e.compressed.length := by simp [Encoder.setNibble]

lemma extends_putMatch (hw : WellFormed e (e.indicBit % 32)) (matchOffset : ℕ) {length : ℕ}
    (h3 : 3 ≤ length) (hmax : length ≤ MAX_MATCH_LENGTH) :
    Extends e (e.putMatch matchOffset length) 1 := by
  rcases Nat.lt_or_ge CLASSIC_MATCH_LENGTH length with hl | hl
  · by_cases hn : e.nibbleIndex = 0
    · -- a byte is begun
      rw [putMatch_half hw hl hmax hn]
      exact ⟨rfl, rfl, by simp, fun i hi _ => getD_append_left hi 0,
        fun hn' => absurd hn hn', .inr (.inr ⟨by simp, by simp⟩), by simp⟩
    · -- the byte begun last is completed
      obtain ⟨hnl, -⟩ := hw.nibble hn
      rw [putMatch_shared hw hl hmax hn]
      refine ⟨rfl, rfl, by simp, fun i hi hi' => ?_, fun _ => ?_, .inl rfl, by simp⟩
      · rw [getD_append_left (by simpa using hi), Encoder.setNibble, getD_modify_ne (hi' hn)]
      · simp only
        rw [getD_append_left (by simpa using hnl), Encoder.setNibble, getD_modify_eq hnl,
          nibble_toNat _ (halfByte_le _)]
        omega
  · rw [putMatch_short hw h3 hl]
    exact ⟨rfl, rfl, by simp, fun i hi _ => getD_append_left hi 0,
      fun hn => by simp only; rw [getD_append_left (hw.nibble hn).1], .inr (.inl rfl), by simp⟩

lemma sval_of_bytes {pos m : ℕ} (hm : m < 65536) (h0 : out pos = (le 2 m).getD 0 0)
    (h1 : out (pos + 1) = (le 2 m).getD 1 0) : sval out pos = m := by
  have h2 : ofLE (le 2 m) = m := ofLE_le_of_lt (by norm_num; omega)
  rw [sval, h0, h1]
  simpa [le] using h2

/-- The half byte is 15 exactly when a byte follows it, which is never 255. -/
lemma halfByte_cases {length : ℕ} (hl : CLASSIC_MATCH_LENGTH < length)
    (hmax : length ≤ MAX_MATCH_LENGTH) :
    (halfByte length ≠ 15 ∧ halfByte length + 10 = length ∧ extraByte length = []) ∨
      (halfByte length = 15 ∧ extraByte length = [UInt8.ofNat (length - 25)] ∧
        (UInt8.ofNat (length - 25)).toNat ≠ 255 ∧
        (UInt8.ofNat (length - 25)).toNat + 25 = length) := by
  rw [CLASSIC_MATCH_LENGTH] at hl
  rw [MAX_MATCH_LENGTH] at hmax
  rw [halfByte, extraByte, MIDDLE_MATCH_LENGTH]
  split_ifs with h
  · exact .inl ⟨by omega, by omega, rfl⟩
  · refine .inr ⟨rfl, rfl, ?_⟩
    rw [UInt8.toNat_ofNat']
    omega

/-- Reading a length whose half byte is known, with the byte that may follow it. -/
lemma readLength_long {inputIndex nibbleIndex length : ℕ} (hl : CLASSIC_MATCH_LENGTH < length)
    (hmax : length ≤ MAX_MATCH_LENGTH)
    (hhalf : (if nibbleIndex = 0 then (out inputIndex).toNat % 16
      else (out nibbleIndex).toNat / 16) = halfByte length)
    (hextra : ∀ b, extraByte length = [b] →
      out (if nibbleIndex = 0 then inputIndex + 1 else inputIndex) = b) :
    readLength out inputIndex nibbleIndex 7 =
      (length, (if nibbleIndex = 0 then inputIndex + 1 else inputIndex) + (extraByte length).length,
        if nibbleIndex = 0 then inputIndex else 0) := by
  rw [readLength, if_neg (by simp)]
  split_ifs at hhalf hextra ⊢ with hn
  all_goals
    dsimp only
    rw [hhalf]
    rcases halfByte_cases hl hmax with ⟨h15, hlen, hnil⟩ | ⟨h15, hone, h255, hlen⟩
    · rw [if_pos h15, hnil]
      simp only [List.length_nil, Prod.mk.injEq, and_true]
      omega
    · rw [if_neg (not_not.2 h15), hextra _ hone, if_pos h255, hone]
      simp only [List.length_singleton, Prod.mk.injEq, and_true]
      omega

/-- **A match is read back**: its distance, its length and the indices after it. -/
lemma read_putMatch (hw : WellFormed e (e.indicBit % 32)) {matchOffset length : ℕ}
    (ho : 1 ≤ matchOffset ∧ matchOffset ≤ WINDOWS_SIZE) (h3 : 3 ≤ length)
    (hmax : length ≤ MAX_MATCH_LENGTH)
    (hs : Settled out (e.putMatch matchOffset length)
      ((e.putMatch matchOffset length).indicBit % 32 + 1)) :
    sval out e.compressed.length / 8 = matchOffset - 1 ∧
      readLength out (e.compressed.length + 2) e.nibbleIndex
          (sval out e.compressed.length % 8) =
        (length, (e.putMatch matchOffset length).compressed.length,
          (e.putMatch matchOffset length).nibbleIndex) := by
  have hadd := fun i => Settled.added (extends_putMatch hw matchOffset h3 hmax) hw hs
    (i := i)
  have hshared := hs.shared
  rw [WINDOWS_SIZE] at ho
  have hx : ∀ b, extraByte length = [b] → (extraByte length).length = 1 := by
    intro b hb
    rw [hb, List.length_singleton]
  rcases Nat.lt_or_ge CLASSIC_MATCH_LENGTH length with hl | hl
  · by_cases hn : e.nibbleIndex = 0
    · -- the length begins a byte, which is settled in its lower half alone
      rw [putMatch_half hw hl hmax hn] at hadd hshared ⊢
      have hbuf : ∀ j, (e.compressed ++ (le 2 (8 * (matchOffset - 1) + 7) ++
          (UInt8.ofNat (halfByte length) :: extraByte length))).getD (e.compressed.length + j) 0 =
          (le 2 (8 * (matchOffset - 1) + 7) ++
            (UInt8.ofNat (halfByte length) :: extraByte length)).getD j 0 := by
        intro j
        rw [getD_append_right (by omega), Nat.add_sub_cancel_left]
      simp only [List.length_append, length_le, List.length_cons] at hadd hshared ⊢
      have hm : sval out e.compressed.length = 8 * (matchOffset - 1) + 7 := by
        refine sval_of_bytes (by omega) ?_ ?_
        · rw [hadd _ le_rfl (by omega) (by omega)]
          exact hbuf 0
        · rw [hadd _ (by omega) (by omega) (by omega)]
          exact hbuf 1
      have hhalf : (out (e.compressed.length + 2)).toNat % 16 = halfByte length := by
        have := halfByte_le length
        rw [hshared (by omega), hbuf]
        simp only [le, List.cons_append, List.getD_cons_succ, List.getD_cons_zero, List.nil_append,
          UInt8.toNat_ofNat']
        omega
      rw [hm, show (8 * (matchOffset - 1) + 7) % 8 = 7 by omega, hn,
        readLength_long hl hmax (by rw [if_pos rfl, hhalf]) fun b hb => ?_]
      · simp only [if_true, Prod.mk.injEq, true_and, and_true]
        omega
      · have := hx b hb
        rw [if_pos rfl, hadd _ (by omega) (by omega) (by omega), add_assoc, hbuf, hb]
        simp [le]
    · -- the length completes the byte begun last
      obtain ⟨hnl, hno⟩ := hw.nibble hn
      rw [putMatch_shared hw hl hmax hn] at hs hadd ⊢
      have hbuf : ∀ j, (e.setNibble (halfByte length) ++
          (le 2 (8 * (matchOffset - 1) + 7) ++ extraByte length)).getD
            (e.compressed.length + j) 0 =
          (le 2 (8 * (matchOffset - 1) + 7) ++ extraByte length).getD j 0 := by
        intro j
        rw [getD_append_right (by rw [length_setNibble]; omega), length_setNibble,
          Nat.add_sub_cancel_left]
      have hhalf : (out e.nibbleIndex).toNat / 16 = halfByte length := by
        have hlen : e.nibbleIndex < (e.setNibble (halfByte length)).length := by
          rwa [length_setNibble]
        rw [hs.bytes _ (by simp only [List.length_append]; omega) hno (by simp),
          getD_append_left hlen, Encoder.setNibble, getD_modify_eq hnl,
          nibble_toNat _ (halfByte_le _)]
        omega
      simp only [List.length_append, length_le, length_setNibble] at hadd ⊢
      have hm : sval out e.compressed.length = 8 * (matchOffset - 1) + 7 := by
        refine sval_of_bytes (by omega) ?_ ?_
        · rw [hadd _ le_rfl (by omega) (by simp)]
          exact hbuf 0
        · rw [hadd _ (by omega) (by omega) (by simp)]
          exact hbuf 1
      rw [hm, show (8 * (matchOffset - 1) + 7) % 8 = 7 by omega,
        readLength_long hl hmax (by rw [if_neg hn, hhalf]) fun b hb => ?_]
      · simp only [if_neg hn, Prod.mk.injEq, true_and, and_true]
        omega
      · have := hx b hb
        rw [if_neg hn, hadd _ (by omega) (by omega) (by simp), hbuf, hb]
        simp [le]
  · rw [putMatch_short hw h3 hl] at hadd ⊢
    rw [CLASSIC_MATCH_LENGTH] at hl
    simp only [List.length_append, length_le] at hadd ⊢
    have hm : sval out e.compressed.length = 8 * (matchOffset - 1) + (length - 3) := by
      have hne : ∀ j, e.nibbleIndex ≠ 0 → e.compressed.length + j ≠ e.nibbleIndex := by
        intro j hn
        have := (hw.nibble hn).1
        omega
      refine sval_of_bytes (by omega) ?_ ?_
      · rw [hadd _ le_rfl (by omega) (hne 0), getD_append_right le_rfl, Nat.sub_self]
      · rw [hadd _ (by omega) (by omega) (hne 1), getD_append_right (by omega),
          Nat.add_sub_cancel_left]
    rw [hm, readLength, if_pos (by omega)]
    refine ⟨by omega, ?_⟩
    simp only [Prod.mk.injEq, and_true]
    omega

end SteepSystem.Lzxpress.Written
