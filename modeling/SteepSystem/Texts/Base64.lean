import SteepSystem.Lib.CStrings
import SteepSystem.Lib.Outputs

/-!
`encode64_ex` and `decode64_ex` (`LIBRARY/common/util.c`): base64 in lines of 76 bytes, into buffers
whose sizes are checked once, before anything is written.
-/

namespace SteepSystem.Texts.Base64

open SteepSystem.Lib.CStrings SteepSystem.Lib.Outputs

def maxLine : ℕ := 76

def eol : List UInt8 := [0x0D, 0x0A]

def base64tab (n : UInt8) : UInt8 :=
  if n < 26 then 0x41 + n
  else if n < 52 then 0x61 + (n - 26)
  else if n < 62 then 0x30 + (n - 52)
  else if n = 62 then 0x2B
  else 0x2F

def isbase64 (a : UInt8) : Bool :=
  (0x41 ≤ a && a ≤ 0x5A) || (0x61 ≤ a && a ≤ 0x7A) || (0x30 ≤ a && a ≤ 0x39) || a = 0x2B || a = 0x2F

def base64idx (a : UInt8) : UInt8 :=
  if 0x41 ≤ a ∧ a ≤ 0x5A then a - 0x41
  else if 0x61 ≤ a ∧ a ≤ 0x7A then a - 0x61 + 26
  else if 0x30 ≤ a ∧ a ≤ 0x39 then a - 0x30 + 52
  else if a = 0x2B then 62
  else if a = 0x2F then 63
  else 0xFF

def quad (c1 c2 c3 : UInt8) : List UInt8 :=
  [base64tab ((c1 &&& 0xFC) >>> 2), base64tab ((c1 &&& 0x03) <<< 4 ||| (c2 &&& 0xF0) >>> 4),
    base64tab ((c2 &&& 0x0F) <<< 2 ||| (c3 &&& 0xC0) >>> 6), base64tab (c3 &&& 0x3F)]

def quadTwo (c1 c2 : UInt8) : List UInt8 :=
  [base64tab ((c1 &&& 0xFC) >>> 2), base64tab ((c1 &&& 0x03) <<< 4 ||| (c2 &&& 0xF0) >>> 4),
    base64tab ((c2 &&& 0x0F) <<< 2), 0x3D]

def quadOne (c1 : UInt8) : List UInt8 :=
  [base64tab ((c1 &&& 0xFC) >>> 2), base64tab ((c1 &&& 0x03) <<< 4), 0x3D, 0x3D]

/-- Three bytes at a time, and the one or two that remain; `none` where the output is left. -/
def encodeLoop (outmax : ℕ) : List UInt8 → List UInt8 → ℕ → Option (List UInt8)
  | c1 :: c2 :: c3 :: input, out, lineLen =>
    (put outmax out (quad c1 c2 c3)).bind fun out =>
      if lineLen + 4 ≥ maxLine - 3 then
        (put outmax out eol).bind fun out => encodeLoop outmax input out 0
      else encodeLoop outmax input out (lineLen + 4)
  | [], out, _ => put outmax out eol
  | [c1], out, _ => (put outmax out (quadOne c1)).bind fun out => put outmax out eol
  | [c1, c2], out, _ => (put outmax out (quadTwo c1 c2)).bind fun out => put outmax out eol

/-- The size that is asked for, from the length of the input. -/
def encodeSize (inLen : ℕ) : ℕ :=
  let outsize := (inLen + 2) / 3 * 4
  outsize + (eol.length * outsize / maxLine + 2)

/-- What is returned, with the text in front of the terminating NUL. -/
def encode64Ex (input : List UInt8) (outmax : ℕ) : Option (ℤ × List UInt8) :=
  if outmax < encodeSize input.length then some (-1, [])
  else (encodeLoop outmax input [] 0).bind fun out => (put outmax out [0]).map fun _ => (0, out)

structure Flags where
  isErr : Bool
  isEndSeen : Bool

/-- The next character that counts, or the last one of the input. -/
def fetch (a : UInt8) (s : Flags) : List UInt8 → UInt8 × Flags × List UInt8
  | [] => (a, s, [])
  | c :: input =>
    if isbase64 c then (c, s, input)
    else if c = 0x3D then (c, { s with isEndSeen := true }, input)
    else if c ≠ 0x0D ∧ c ≠ 0x0A ∧ c ≠ 0x20 ∧ c ≠ 0x09 then fetch c { s with isErr := true } input
    else fetch c s input

def b1 (a1 a2 : UInt8) : UInt8 := ((a1 <<< 2) &&& (0xFC : UInt8)) ||| ((a2 >>> 4) &&& (0x03 : UInt8))

def b2 (a2 a3 : UInt8) : UInt8 := ((a2 <<< 4) &&& (0xF0 : UInt8)) ||| ((a3 >>> 2) &&& (0x0F : UInt8))

def b3 (a3 a4 : UInt8) : UInt8 := ((a3 <<< 6) &&& (0xC0 : UInt8)) ||| (a4 &&& 0x3F)

/-- What a turn writes for four characters, and whether the loop goes on. -/
def decodeQuad (a1 a2 a3 a4 : UInt8) : List UInt8 × Bool :=
  if isbase64 a1 ∧ isbase64 a2 ∧ isbase64 a3 ∧ isbase64 a4 then
    ([b1 (base64idx a1) (base64idx a2), b2 (base64idx a2) (base64idx a3),
      b3 (base64idx a3) (base64idx a4)], true)
  else if isbase64 a1 ∧ isbase64 a2 ∧ isbase64 a3 ∧ a4 = 0x3D then
    ([b1 (base64idx a1) (base64idx a2), b2 (base64idx a2) (base64idx a3)], false)
  else if isbase64 a1 ∧ isbase64 a2 ∧ a3 = 0x3D ∧ a4 = 0x3D then
    ([b1 (base64idx a1) (base64idx a2)], false)
  else ([], false)

structure Decoder where
  input : List UInt8
  out : List UInt8
  flags : Flags

/-- One turn, and whether it is the last. -/
def decodeTurn (outmax : ℕ) (s : Decoder) : Option (Decoder × Bool) :=
  let (a1, flags, input) := fetch 0 s.flags s.input
  let (a2, flags, input) := fetch 0 flags input
  let (a3, flags, input) := fetch 0 flags input
  let (a4, flags, input) := fetch 0 flags input
  let (new, more) := decodeQuad a1 a2 a3 a4
  (put outmax s.out new).map fun out => (⟨input, out, flags⟩, !more || flags.isEndSeen)

def decodeLoop (outmax : ℕ) : ℕ → Decoder → Option Decoder
  | 0, s => some s
  | fuel + 1, s =>
    if s.input = [] then some s
    else (decodeTurn outmax s).bind fun (s, last) =>
      if last then some s else decodeLoop outmax fuel s

def decodeSize (inLen : ℕ) : ℕ := (inLen + 3) / 4 * 3

/-- What is returned, with the bytes in front of the terminating NUL. -/
def decode64Ex (input : List UInt8) (outmax : ℕ) : Option (ℤ × List UInt8) :=
  if outmax < decodeSize input.length then some (-1, [])
  else (decodeLoop outmax input.length ⟨input, [], ⟨false, false⟩⟩).bind fun s =>
    (put outmax s.out [0]).map fun _ => (if s.flags.isErr then -1 else 0, s.out)

/-! ### Encoding -/

/-- The text of the input, when `lineLen` characters are in its first line already. -/
def wrapped (lineLen : ℕ) : List UInt8 → List UInt8
  | c1 :: c2 :: c3 :: input =>
    quad c1 c2 c3 ++ if lineLen + 4 ≥ maxLine - 3 then eol ++ wrapped 0 input
      else wrapped (lineLen + 4) input
  | [] => eol
  | [c1] => quadOne c1 ++ eol
  | [c1, c2] => quadTwo c1 c2 ++ eol

lemma encodeLoop_eq (outmax : ℕ) : ∀ (input out : List UInt8) (lineLen : ℕ),
    encodeLoop outmax input out lineLen = put outmax out (wrapped lineLen input)
  | c1 :: c2 :: c3 :: input, out, lineLen => by
    have ih := encodeLoop_eq outmax input
    rw [encodeLoop, wrapped]
    split
    · simp only [ih, put_put]
    · simp only [ih, put_put]
  | [], out, _ => rfl
  | [c1], out, _ => put_put out _ _
  | [c1, c2], out, _ => put_put out _ _

lemma length_wrapped : ∀ (input : List UInt8) (k : ℕ), k < 19 →
    (wrapped (4 * k) input).length =
      4 * ((input.length + 2) / 3) + 2 * ((input.length / 3 + k) / 19) + 2
  | c1 :: c2 :: c3 :: input, k, hk => by
    have hthird : (input.length + 1 + 1 + 1) / 3 = input.length / 3 + 1 := by omega
    have hceil : (input.length + 1 + 1 + 1 + 2) / 3 = (input.length + 2) / 3 + 1 := by omega
    rw [wrapped, List.length_append]
    simp only [List.length_cons, hthird, hceil]
    have hquad : (quad c1 c2 c3).length = 4 := rfl
    split
    · have hk' : k = 18 := by
        rw [maxLine] at *
        omega
      have ih := length_wrapped input 0 (by omega)
      have heol : eol.length = 2 := rfl
      rw [Nat.mul_zero, Nat.add_zero] at ih
      rw [hquad, List.length_append, ih, heol]
      omega
    · have hk' : k + 1 < 19 := by
        rw [maxLine] at *
        omega
      have ih := length_wrapped input (k + 1) hk'
      rw [Nat.mul_add, Nat.mul_one] at ih
      rw [hquad, ih]
      omega
  | [], k, hk => by
    simp [wrapped, eol]
    omega
  | [c1], k, hk => by
    simp [wrapped, eol, quadOne]
    omega
  | [c1, c2], k, hk => by
    simp [wrapped, eol, quadTwo]
    omega

lemma encode64Ex_eq (input : List UInt8) (outmax : ℕ) : encode64Ex input outmax =
    if outmax < encodeSize input.length then some (-1, [])
    else if (wrapped 0 input).length < outmax then some (0, wrapped 0 input) else none := by
  rw [encode64Ex]
  split
  · rfl
  · rw [encodeLoop_eq]
    exact put_terminated outmax _ 0 fun out => (0, out)

/-- The size asked for is that of the text and its NUL, or does not matter for this output. -/
def EncodeFits (inLen outmax : ℕ) : Prop :=
  let groups := (inLen + 2) / 3
  if groups % 19 = 0 ∧ inLen % 3 ≠ 0 then outmax ≠ 4 * groups + 2 * (groups / 19) + 1
  else 10 ≤ groups % 19 ∨ outmax ≠ 4 * groups + 2 * (groups / 19) + 2

lemma encodeFits_iff (input : List UInt8) (outmax : ℕ) : EncodeFits input.length outmax ↔
    (outmax < encodeSize input.length ↔ outmax ≤ (wrapped 0 input).length) := by
  have hlen := length_wrapped input 0 (by omega)
  have hsize : encodeSize input.length =
      (input.length + 2) / 3 * 4 + (2 * ((input.length + 2) / 3 * 4) / 76 + 2) := rfl
  simp only [Nat.mul_zero, Nat.add_zero] at hlen
  rw [EncodeFits, hlen, hsize]
  -- the full lines, and the groups of the last one
  obtain ⟨q, r, hr, hq⟩ : ∃ q r, r < 19 ∧ (input.length + 2) / 3 = 19 * q + r :=
    ⟨(input.length + 2) / 3 / 19, (input.length + 2) / 3 % 19, by omega, by omega⟩
  have hdiv : (19 * q + r) / 19 = q := by omega
  have hmod : (19 * q + r) % 19 = r := by omega
  have hneed : 2 * ((19 * q + r) * 4) / 76 = 2 * q + 2 * r / 19 := by omega
  rw [hq, hdiv, hmod, hneed]
  by_cases h3 : input.length % 3 = 0
  · have ht : input.length / 3 / 19 = q := by omega
    rw [if_neg fun h => h.2 h3, ht]
    omega
  · by_cases h0 : r = 0
    · rw [if_pos ⟨h0, h3⟩]
      omega
    · have ht : input.length / 3 / 19 = q := by omega
      rw [if_neg fun h => h0 h.1, ht]
      omega

/-! ### Groups -/

lemma base64tab_class : ∀ n : UInt8, n < 64 →
    isbase64 (base64tab n) = true ∧ base64idx (base64tab n) = n := by
  refine forall_uint8 ?_
  decide +kernel

/-- The parts of a byte in two characters. -/
lemma parts_of_byte : ∀ c : UInt8,
    ((c &&& 0xFC) >>> 2 < 64 ∧ (c &&& 0x03) <<< 4 < 64 ∧ (c &&& 0xF0) >>> 4 < 64 ∧
      (c &&& 0x0F) <<< 2 < 64 ∧ (c &&& 0xC0) >>> 6 < 64 ∧ c &&& 0x3F < 64) ∧
    ((c &&& 0x03) <<< 4 <<< 4 = 0 ∧ (c &&& 0xF0) >>> 4 >>> 4 = 0 ∧ (c &&& 0x0F) <<< 2 <<< 6 = 0 ∧
      (c &&& 0xC0) >>> 6 >>> 2 = 0) ∧
    (b1 ((c &&& 0xFC) >>> 2) ((c &&& 0x03) <<< 4) = c ∧
      b2 ((c &&& 0xF0) >>> 4) ((c &&& 0x0F) <<< 2) = c ∧
      b3 ((c &&& 0xC0) >>> 6) (c &&& 0x3F) = c) := by
  refine forall_uint8 ?_
  decide +kernel

lemma b1_or (a : UInt8) {x y : UInt8} (hy : y >>> 4 = 0) : b1 a (x ||| y) = b1 a x := by
  rw [b1, b1, UInt8.shiftRight_or, hy, UInt8.or_zero]

lemma b2_or {x y w z : UInt8} (hx : x <<< 4 = 0) (hz : z >>> 2 = 0) :
    b2 (x ||| y) (w ||| z) = b2 y w := by
  rw [b2, b2, UInt8.shiftLeft_or, hx, UInt8.zero_or, UInt8.shiftRight_or, hz, UInt8.or_zero]

lemma b2_or_left {x y w : UInt8} (hx : x <<< 4 = 0) : b2 (x ||| y) w = b2 y w := by
  rw [b2, b2, UInt8.shiftLeft_or, hx, UInt8.zero_or]

lemma b3_or {w z : UInt8} (a : UInt8) (hw : w <<< 6 = 0) : b3 (w ||| z) a = b3 z a := by
  rw [b3, b3, UInt8.shiftLeft_or, hw, UInt8.zero_or]

/-- Four characters of the alphabet and what they are decoded to. -/
structure Quad (l : List UInt8) (new : List UInt8) (more : Bool) : Prop where
  chars : ∃ a1 a2 a3 a4, l = [a1, a2, a3, a4] ∧ isbase64 a1 ∧
    (isbase64 a2 ∨ a2 = 0x3D) ∧ (isbase64 a3 ∨ a3 = 0x3D) ∧ (isbase64 a4 ∨ a4 = 0x3D) ∧
    decodeQuad a1 a2 a3 a4 = (new, more)

lemma quad_ok (c1 c2 c3 : UInt8) : Quad (quad c1 c2 c3) [c1, c2, c3] true := by
  obtain ⟨⟨h1, h2, -, -, -, -⟩, ⟨h3, -, -, -⟩, h4, -, -⟩ := parts_of_byte c1
  obtain ⟨⟨-, -, k1, k2, -, -⟩, ⟨-, k3, k4, -⟩, -, k5, -⟩ := parts_of_byte c2
  obtain ⟨⟨-, -, -, -, m1, m2⟩, ⟨-, -, -, m3⟩, -, -, m4⟩ := parts_of_byte c3
  obtain ⟨i1, x1⟩ := base64tab_class _ h1
  obtain ⟨i2, x2⟩ := base64tab_class _ (or_lt_sixtyFour h2 k1)
  obtain ⟨i3, x3⟩ := base64tab_class _ (or_lt_sixtyFour k2 m1)
  obtain ⟨i4, x4⟩ := base64tab_class _ m2
  refine ⟨_, _, _, _, rfl, i1, .inl i2, .inl i3, .inl i4, ?_⟩
  rw [decodeQuad, if_pos ⟨i1, i2, i3, i4⟩, x1, x2, x3, x4, b1_or _ k3, h4, b2_or h3 m3, k5,
    b3_or _ k4, m4]

lemma quadTwo_ok (c1 c2 : UInt8) : Quad (quadTwo c1 c2) [c1, c2] false := by
  obtain ⟨⟨h1, h2, -, -, -, -⟩, ⟨h3, -, -, -⟩, h4, -, -⟩ := parts_of_byte c1
  obtain ⟨⟨-, -, k1, k2, -, -⟩, ⟨-, k3, -, -⟩, -, k5, -⟩ := parts_of_byte c2
  obtain ⟨i1, x1⟩ := base64tab_class _ h1
  obtain ⟨i2, x2⟩ := base64tab_class _ (or_lt_sixtyFour h2 k1)
  obtain ⟨i3, x3⟩ := base64tab_class _ k2
  refine ⟨_, _, _, _, rfl, i1, .inl i2, .inl i3, .inr rfl, ?_⟩
  rw [decodeQuad, if_neg fun h => absurd h.2.2.2 (by decide), if_pos ⟨i1, i2, i3, rfl⟩, x1, x2, x3,
    b1_or _ k3, h4, b2_or_left h3, k5]

lemma quadOne_ok (c1 : UInt8) : Quad (quadOne c1) [c1] false := by
  obtain ⟨⟨h1, h2, -, -, -, -⟩, -, h4, -, -⟩ := parts_of_byte c1
  obtain ⟨i1, x1⟩ := base64tab_class _ h1
  obtain ⟨i2, x2⟩ := base64tab_class _ h2
  refine ⟨_, _, _, _, rfl, i1, .inl i2, .inr rfl, .inr rfl, ?_⟩
  rw [decodeQuad, if_neg fun h => absurd h.2.2.2 (by decide),
    if_neg fun h => absurd h.2.2.1 (by decide), if_pos ⟨i1, i2, rfl, rfl⟩, x1, x2, h4]

/-! ### Decoding -/

section Fetch

variable {a c : UInt8} {s : Flags} {input : List UInt8}

lemma fetch_base64 (h : isbase64 c) : fetch a s (c :: input) = (c, s, input) := by
  rw [fetch, if_pos h]

lemma fetch_cons_exists (a : UInt8) (s : Flags) (c : UInt8) (input : List UInt8) :
    (isbase64 c = true ∧ fetch a s (c :: input) = (c, s, input)) ∨
      (isbase64 c = false ∧ ∃ s', fetch a s (c :: input) = (c, s', input) ∨
        fetch a s (c :: input) = fetch c s' input) := by
  cases hc : isbase64 c with
  | true => exact .inl ⟨rfl, fetch_base64 hc⟩
  | false =>
    refine .inr ⟨rfl, ?_⟩
    rw [fetch, hc, if_neg Bool.false_ne_true]
    split
    · exact ⟨_, .inl rfl⟩
    · split
      · exact ⟨_, .inr rfl⟩
      · exact ⟨_, .inr rfl⟩

/-- A character is taken unless the input is at its end. -/
lemma fetch_length (a : UInt8) (s : Flags) (input : List UInt8) :
    (fetch a s input).2.2.length + 1 ≤ input.length ∨
      input = [] ∧ (fetch a s input).1 = a ∧ (fetch a s input).2.2 = [] := by
  induction input generalizing a s with
  | nil => exact .inr ⟨rfl, rfl, rfl⟩
  | cons c input ih =>
    refine .inl ?_
    rw [List.length_cons]
    rcases fetch_cons_exists a s c input with ⟨-, h⟩ | ⟨-, s', h | h⟩
    · rw [h]
    · rw [h]
    · rw [h]
      rcases ih c s' with hlt | ⟨-, -, hnil⟩
      · omega
      · rw [hnil]
        simp

/-- Where only one character is taken, and it is one of the alphabet, nothing has been skipped. -/
lemma fetch_exact (h : isbase64 (fetch a s input).1)
    (hlen : (fetch a s input).2.2.length + 1 = input.length) :
    input = (fetch a s input).1 :: (fetch a s input).2.2 := by
  cases input with
  | nil => simp at hlen
  | cons c input =>
    rw [List.length_cons] at hlen
    rcases fetch_cons_exists a s c input with ⟨-, h'⟩ | ⟨hc, s', h' | h'⟩
    · rw [h']
    · rw [h']
    · rw [h'] at h hlen ⊢
      rcases fetch_length c s' input with hlt | ⟨-, hfirst, -⟩
      · omega
      · rw [hfirst, hc] at h
        cases h

/-- What counts is in the input. -/
lemma fetch_taken (h : isbase64 (fetch 0 s input).1 ∨ (fetch 0 s input).1 = 0x3D) :
    (fetch 0 s input).2.2.length + 1 ≤ input.length := by
  rcases fetch_length 0 s input with hlt | ⟨-, hfirst, -⟩
  · exact hlt
  · rw [hfirst] at h
    exact absurd h (by decide)

/-- Blanks in front are passed by. -/
lemma fetch_blanks {pre : List UInt8} (h : ∀ c ∈ pre, c = 0x0D ∨ c = 0x0A) (input : List UInt8) :
    ∃ a', (a' = a ∨ a' = 0x0D ∨ a' = 0x0A) ∧ fetch a s (pre ++ input) = fetch a' s input := by
  induction pre generalizing a with
  | nil => exact ⟨a, .inl rfl, rfl⟩
  | cons c pre ih =>
    rw [List.forall_mem_cons] at h
    have hstep : fetch a s (c :: (pre ++ input)) = fetch c s (pre ++ input) := by
      rcases h.1 with rfl | rfl
      · rfl
      · rfl
    obtain ⟨a', ha', heq⟩ := ih h.2 (a := c)
    refine ⟨a', .inr ?_, hstep.trans heq⟩
    rcases ha' with rfl | ha'
    · exact h.1
    · exact ha'

lemma fetch_char (s : Flags) (input : List UInt8) (h : isbase64 c ∨ c = 0x3D) :
    ∃ e, fetch a s (c :: input) = (c, ⟨s.isErr, e⟩, input) ∧
      (e = true → c = 0x3D ∨ s.isEndSeen = true) := by
  by_cases hc : isbase64 c
  · exact ⟨s.isEndSeen, fetch_base64 hc, .inr⟩
  · obtain rfl := h.resolve_left hc
    exact ⟨true, rfl, fun _ => .inl rfl⟩

end Fetch

lemma decodeQuad_cases (a1 a2 a3 a4 : UInt8) :
    ((decodeQuad a1 a2 a3 a4).1.length = 3 ∧ isbase64 a1 ∧ isbase64 a2 ∧ isbase64 a3 ∧ isbase64 a4) ∨
    ((decodeQuad a1 a2 a3 a4).1.length ≤ 2 ∧ isbase64 a1 ∧ isbase64 a2 ∧
      (isbase64 a3 ∨ a3 = 0x3D) ∧ a4 = 0x3D) ∨
    (decodeQuad a1 a2 a3 a4).1 = [] := by
  unfold decodeQuad
  split
  · exact .inl ⟨rfl, ‹_›⟩
  · split
    · obtain ⟨h1, h2, h3, h4⟩ := ‹isbase64 a1 ∧ isbase64 a2 ∧ isbase64 a3 ∧ a4 = 0x3D›
      exact .inr (.inl ⟨le_rfl, h1, h2, .inl h3, h4⟩)
    · split
      · obtain ⟨h1, h2, h3, h4⟩ := ‹isbase64 a1 ∧ isbase64 a2 ∧ a3 = 0x3D ∧ a4 = 0x3D›
        exact .inr (.inl ⟨Nat.le_succ 1, h1, h2, .inr h3, h4⟩)
      · exact .inr (.inr rfl)

section Decoding

variable {fuel : ℕ} {s : Decoder}

/-- **One turn** writes three bytes for four characters at most, and as many only when it passes
nothing by. -/
lemma decodeTurn_spec (outmax : ℕ) (s : Decoder) (hs : s.input ≠ []) :
    ∃ new rest flags last, decodeTurn outmax s =
        (put outmax s.out new).map (fun out => (⟨rest, out, flags⟩, last)) ∧
      rest.length < s.input.length ∧
      4 * new.length + 3 * rest.length ≤ 3 * s.input.length ∧
      (4 * new.length + 3 * rest.length = 3 * s.input.length →
        ∃ quad, s.input = quad ++ rest ∧ quad.length = 4 ∧ ∀ c ∈ quad, isbase64 c) := by
  set r1 := fetch 0 s.flags s.input with hr1
  set r2 := fetch 0 r1.2.1 r1.2.2 with hr2
  set r3 := fetch 0 r2.2.1 r2.2.2 with hr3
  set r4 := fetch 0 r3.2.1 r3.2.2 with hr4
  have hturn : decodeTurn outmax s = (put outmax s.out (decodeQuad r1.1 r2.1 r3.1 r4.1).1).map
      (fun out => (⟨r4.2.2, out, r4.2.1⟩,
        !(decodeQuad r1.1 r2.1 r3.1 r4.1).2 || r4.2.1.isEndSeen)) := rfl
  have hle {a : UInt8} {f : Flags} {l : List UInt8} : (fetch a f l).2.2.length ≤ l.length := by
    rcases fetch_length a f l with hlt | ⟨-, -, hnil⟩
    · omega
    · rw [hnil]
      exact Nat.zero_le _
  have hlt : r1.2.2.length < s.input.length := by
    rcases fetch_length 0 s.flags s.input with hlt | ⟨hnil, -⟩
    · exact hlt
    · exact absurd hnil hs
  have l2 : r2.2.2.length ≤ r1.2.2.length := hle
  have l3 : r3.2.2.length ≤ r2.2.2.length := hle
  have l4 : r4.2.2.length ≤ r3.2.2.length := hle
  refine ⟨_, _, _, _, hturn, by omega, ?_⟩
  rcases decodeQuad_cases r1.1 r2.1 r3.1 r4.1 with ⟨hlen, h1, h2, h3, h4⟩ |
    ⟨hlen, h1, h2, h3, h4⟩ | hnil
  · have t1 := fetch_taken (.inl h1)
    have t2 := fetch_taken (.inl h2)
    have t3 := fetch_taken (.inl h3)
    have t4 := fetch_taken (.inl h4)
    rw [← hr1] at t1
    rw [← hr2] at t2
    rw [← hr3] at t3
    rw [← hr4] at t4
    refine ⟨by omega, fun heq => ⟨[r1.1, r2.1, r3.1, r4.1], ?_, rfl, ?_⟩⟩
    · have e1 := fetch_exact (a := 0) h1 (by rw [← hr1]; omega)
      have e2 := fetch_exact (a := 0) h2 (by rw [← hr2]; omega)
      have e3 := fetch_exact (a := 0) h3 (by rw [← hr3]; omega)
      have e4 := fetch_exact (a := 0) h4 (by rw [← hr4]; omega)
      rw [e1, ← hr1, e2, ← hr2, e3, ← hr3, e4, ← hr4]
      rfl
    · simp [h1, h2, h3, h4]
  · have t1 := fetch_taken (.inl h1)
    have t2 := fetch_taken (.inl h2)
    have t3 := fetch_taken h3
    have t4 := fetch_taken (.inr h4)
    rw [← hr1] at t1
    rw [← hr2] at t2
    rw [← hr3] at t3
    rw [← hr4] at t4
    exact ⟨by omega, fun heq => by omega⟩
  · rw [hnil, List.length_nil]
    exact ⟨by omega, fun heq => by omega⟩

/-- **The loop** writes three quarters of its input at most, and as many only when all of it is in
groups of the alphabet. -/
lemma decodeLoop_spec (outmax : ℕ) (hfuel : s.input.length ≤ fuel)
    (hroom : 4 * s.out.length + 3 * s.input.length ≤ 4 * outmax) :
    ∃ s', decodeLoop outmax fuel s = some s' ∧
      4 * s'.out.length ≤ 4 * s.out.length + 3 * s.input.length ∧
      (4 * s'.out.length = 4 * s.out.length + 3 * s.input.length →
        (∀ c ∈ s.input, isbase64 c) ∧ 4 ∣ s.input.length) := by
  have hend : ∀ s : Decoder, s.input = [] → 4 * s.out.length ≤ 4 * s.out.length + 3 * s.input.length ∧
      (4 * s.out.length = 4 * s.out.length + 3 * s.input.length →
        (∀ c ∈ s.input, isbase64 c) ∧ 4 ∣ s.input.length) :=
    fun s h => ⟨by omega, fun _ => by simp [h]⟩
  induction fuel generalizing s with
  | zero => exact ⟨s, rfl, hend s (List.length_eq_zero_iff.mp (Nat.le_zero.mp hfuel))⟩
  | succ fuel ih =>
    rw [decodeLoop]
    by_cases hnil : s.input = []
    · rw [if_pos hnil]
      exact ⟨s, rfl, hend s hnil⟩
    · obtain ⟨new, rest, flags, last, hturn, hlt, hle, hexact⟩ := decodeTurn_spec outmax s hnil
      have hput : put outmax s.out new = some (s.out ++ new) := put_of_le (by omega)
      rw [if_neg hnil, hturn, hput, Option.map_some, Option.bind_some]
      have hlen : (s.out ++ new).length = s.out.length + new.length := List.length_append
      -- the groups of the turn and those behind it
      have hall (hr : (∀ c ∈ rest, isbase64 c) ∧ 4 ∣ rest.length)
          (heq : 4 * new.length + 3 * rest.length = 3 * s.input.length) :
          (∀ c ∈ s.input, isbase64 c) ∧ 4 ∣ s.input.length := by
        obtain ⟨quad, hinput, hfour, hquad⟩ := hexact heq
        rw [hinput, List.length_append, hfour]
        exact ⟨fun c hc => (List.mem_append.mp hc).elim (hquad c) (hr.1 c), by omega⟩
      cases last with
      | true =>
        refine ⟨⟨rest, s.out ++ new, flags⟩, rfl, by dsimp only; omega, fun heq => ?_⟩
        dsimp only at heq
        have hrest : rest = [] := List.length_eq_zero_iff.mp (by omega)
        exact hall (by simp [hrest]) (by omega)
      | false =>
        obtain ⟨s', hs', hbound, hex⟩ := ih (s := ⟨rest, s.out ++ new, flags⟩) (by dsimp only; omega)
          (by dsimp only; omega)
        dsimp only at hbound hex
        exact ⟨s', hs', by omega, fun heq => hall (hex (by omega)) (by omega)⟩

/-- Groups of the alphabet without anything else are all decoded. -/
lemma decodeLoop_full (outmax : ℕ) (hall : ∀ c ∈ s.input, isbase64 c) (hdvd : 4 ∣ s.input.length)
    (hfuel : s.input.length ≤ fuel) (hflags : s.flags.isEndSeen = false)
    (hroom : 4 * s.out.length + 3 * s.input.length ≤ 4 * outmax) :
    ∃ s', decodeLoop outmax fuel s = some s' ∧
      4 * s'.out.length = 4 * s.out.length + 3 * s.input.length := by
  induction fuel generalizing s with
  | zero =>
    have hnil : s.input.length = 0 := Nat.le_zero.mp hfuel
    exact ⟨s, rfl, by omega⟩
  | succ fuel ih =>
    obtain ⟨input, out, flags⟩ := s
    rw [decodeLoop]
    match input, hall, hdvd, hfuel, hroom with
    | [], _, _, _, _ => exact ⟨_, rfl, by simp⟩
    | [_], _, hdvd, _, _ => exact absurd hdvd (by simp)
    | [_, _], _, hdvd, _, _ => exact absurd hdvd (by simp)
    | [_, _, _], _, hdvd, _, _ => exact absurd hdvd (by simp)
    | a1 :: a2 :: a3 :: a4 :: rest, hall, hdvd, hfuel, hroom =>
      simp only [List.forall_mem_cons] at hall
      simp only [List.length_cons] at hdvd hfuel hroom
      obtain ⟨h1, h2, h3, h4, hrest⟩ := hall
      obtain ⟨new, hquad, hnew⟩ : ∃ new, decodeQuad a1 a2 a3 a4 = (new, true) ∧ new.length = 3 := by
        rw [decodeQuad, if_pos ⟨h1, h2, h3, h4⟩]
        exact ⟨_, rfl, rfl⟩
      have hput : put outmax out new = some (out ++ new) := put_of_le (by omega)
      have hlen : (out ++ new).length = out.length + new.length := List.length_append
      have hturn : decodeTurn outmax ⟨a1 :: a2 :: a3 :: a4 :: rest, out, flags⟩ =
          some (⟨rest, out ++ new, flags⟩, flags.isEndSeen) := by
        simp only [decodeTurn, fetch_base64 h1, fetch_base64 h2, fetch_base64 h3, fetch_base64 h4,
          hquad, hput, Option.map_some]
        rfl
      dsimp only at hflags
      rw [if_neg (List.cons_ne_nil _ _), hturn, hflags]
      obtain ⟨s', hs', hout⟩ := ih (s := ⟨rest, out ++ new, flags⟩) hrest (by dsimp only; omega)
        (by dsimp only; omega) hflags (by dsimp only; omega)
      refine ⟨s', hs', ?_⟩
      dsimp only [List.length_cons] at hout ⊢
      omega

/-- The output has no room for the NUL: every character is of the alphabet, none is left over, and
the buffer has just the size that is asked for. -/
def DecodeStrays (input : List UInt8) (outmax : ℕ) : Prop :=
  4 ∣ input.length ∧ (∀ c ∈ input, isbase64 c) ∧ outmax = input.length / 4 * 3

lemma decode64Ex_isSome (input : List UInt8) (outmax : ℕ) :
    (decode64Ex input outmax).isSome ↔ ¬ DecodeStrays input outmax := by
  rw [decode64Ex]
  by_cases hsize : outmax < decodeSize input.length
  · rw [decodeSize] at hsize
    rw [decodeSize, if_pos hsize]
    refine iff_of_true rfl fun h => ?_
    obtain ⟨hdvd, -, hout⟩ := h
    omega
  · rw [if_neg hsize]
    rw [decodeSize] at hsize
    obtain ⟨s', hs', hle, hex⟩ := decodeLoop_spec outmax (s := ⟨input, [], ⟨false, false⟩⟩)
      (le_refl input.length) (by simp; omega)
    dsimp only [List.length_nil] at hle hex
    rw [hs', Option.bind_some, Option.isSome_map, put]
    have hnul : s'.out.length + [(0 : UInt8)].length ≤ outmax ↔ s'.out.length < outmax := Iff.rfl
    by_cases hroom : s'.out.length < outmax
    · rw [if_pos (hnul.mpr hroom)]
      refine iff_of_true rfl fun h => ?_
      obtain ⟨hdvd, hall, hout⟩ := h
      obtain ⟨s'', hs'', hfull⟩ := decodeLoop_full outmax (s := ⟨input, [], ⟨false, false⟩⟩) hall hdvd
        (le_refl input.length) rfl (by simp; omega)
      rw [hs'] at hs''
      obtain rfl := Option.some.inj hs''
      dsimp only [List.length_nil] at hfull
      omega
    · rw [if_neg fun h => hroom (hnul.mp h)]
      refine iff_of_false Bool.false_ne_true (not_not.mpr ?_)
      obtain ⟨hall, hdvd⟩ := hex (by omega)
      exact ⟨hdvd, hall, by omega⟩

/-! ### Both ways -/

lemma decodeQuad_more {a1 a2 a3 a4 : UInt8} {new : List UInt8}
    (h : decodeQuad a1 a2 a3 a4 = (new, true)) :
    isbase64 a1 ∧ isbase64 a2 ∧ isbase64 a3 ∧ isbase64 a4 := by
  by_contra hno
  rw [decodeQuad, if_neg hno] at h
  split at h
  · cases h
  · split at h
    · cases h
    · cases h

/-- A group behind a line break. -/
lemma decodeTurn_quad {l new pre : List UInt8} {more : Bool} (hl : Quad l new more)
    (hpre : ∀ c ∈ pre, c = 0x0D ∨ c = 0x0A) (outmax : ℕ) (rest out : List UInt8) :
    ∃ flags : Flags, flags.isErr = false ∧ (more = true → flags.isEndSeen = false) ∧
      decodeTurn outmax ⟨pre ++ (l ++ rest), out, ⟨false, false⟩⟩ =
        (put outmax out new).map fun out => (⟨rest, out, flags⟩, !more || flags.isEndSeen) := by
  obtain ⟨a1, a2, a3, a4, rfl, h1, h2, h3, h4, hquad⟩ := hl
  obtain ⟨a', -, hskip⟩ := fetch_blanks (a := 0) (s := ⟨false, false⟩) hpre ([a1, a2, a3, a4] ++ rest)
  obtain ⟨e2, f2, k2⟩ := fetch_char (a := 0) ⟨false, false⟩ (a3 :: a4 :: rest) h2
  obtain ⟨e3, f3, k3⟩ := fetch_char (a := 0) ⟨false, e2⟩ (a4 :: rest) h3
  obtain ⟨e4, f4, k4⟩ := fetch_char (a := 0) ⟨false, e3⟩ rest h4
  refine ⟨⟨false, e4⟩, rfl, fun hmore => ?_, ?_⟩
  · rw [hmore] at hquad
    obtain ⟨-, i2, i3, i4⟩ := decodeQuad_more hquad
    have hpad {c : UInt8} (hc : isbase64 c) : c ≠ 0x3D := by
      rintro rfl
      cases hc
    cases e4 with
    | false => rfl
    | true =>
      have e3_true := (k4 rfl).resolve_left (hpad i4)
      have e2_true := (k3 e3_true).resolve_left (hpad i3)
      exact absurd ((k2 e2_true).resolve_left (hpad i2)) Bool.false_ne_true
  · have f1 : fetch 0 ⟨false, false⟩ (pre ++ ([a1, a2, a3, a4] ++ rest)) =
        (a1, ⟨false, false⟩, a2 :: a3 :: a4 :: rest) := hskip.trans (fetch_base64 h1)
    simp only [decodeTurn, f1, f2, f3, f4, hquad]

/-- Blanks alone write nothing. -/
lemma decodeTurn_blanks {pre : List UInt8} (hpre : ∀ c ∈ pre, c = 0x0D ∨ c = 0x0A) {outmax : ℕ}
    {out : List UInt8} (hout : out.length ≤ outmax) :
    decodeTurn outmax ⟨pre, out, ⟨false, false⟩⟩ = some (⟨[], out, ⟨false, false⟩⟩, true) := by
  obtain ⟨a', ha', hskip⟩ := fetch_blanks (a := 0) (s := ⟨false, false⟩) hpre []
  rw [List.append_nil] at hskip
  have hquad : decodeQuad a' 0 0 0 = ([], false) := by
    rcases ha' with rfl | rfl | rfl
    · rfl
    · rfl
    · rfl
  simp only [decodeTurn, hskip, fetch, hquad, put_nil hout, Option.map_some]
  rfl

lemma decodeLoop_step {outmax : ℕ} {s' : Decoder} {last : Bool} (hfuel : 1 ≤ fuel)
    (hne : s.input ≠ []) (h : decodeTurn outmax s = some (s', last)) :
    decodeLoop outmax fuel s = if last then some s' else decodeLoop outmax (fuel - 1) s' := by
  obtain ⟨fuel, rfl⟩ := Nat.exists_eq_add_of_le hfuel
  rw [Nat.add_comm, decodeLoop, if_neg hne, h, Nat.add_sub_cancel]
  rfl

/-- **A wrapped text** is decoded to what it was. -/
lemma decodeLoop_wrapped (outmax : ℕ) : ∀ (x : List UInt8) (lineLen fuel : ℕ) (pre out : List UInt8),
    (∀ c ∈ pre, c = 0x0D ∨ c = 0x0A) → (pre ++ wrapped lineLen x).length ≤ fuel →
    out.length + x.length ≤ outmax →
    ∃ s', decodeLoop outmax fuel ⟨pre ++ wrapped lineLen x, out, ⟨false, false⟩⟩ = some s' ∧
      s'.out = out ++ x ∧ s'.flags.isErr = false
  | c1 :: c2 :: c3 :: x, lineLen, fuel, pre, out, hpre, hfuel, hout => by
    obtain ⟨flags, herr, hend, hturn⟩ := decodeTurn_quad (quad_ok c1 c2 c3) hpre outmax
      (if lineLen + 4 ≥ maxLine - 3 then eol ++ wrapped 0 x else wrapped (lineLen + 4) x) out
    have hflags : flags = ⟨false, false⟩ := by
      obtain ⟨isErr, isEndSeen⟩ := flags
      obtain rfl : isErr = false := herr
      obtain rfl : isEndSeen = false := hend rfl
      rfl
    have hquad : (quad c1 c2 c3).length = 4 := rfl
    rw [wrapped, List.length_append, List.length_append, hquad] at hfuel
    simp only [List.length_cons] at hout
    have hput : put outmax out [c1, c2, c3] = some (out ++ [c1, c2, c3]) :=
      put_of_le (by simp only [List.length_cons, List.length_nil]; omega)
    rw [hput, hflags, Option.map_some] at hturn
    rw [wrapped, decodeLoop_step (by omega) (by simp [quad]) hturn]
    have hlen : (out ++ [c1, c2, c3]).length + x.length ≤ outmax := by
      simp only [List.length_append, List.length_cons, List.length_nil]
      omega
    have happend : out ++ c1 :: c2 :: c3 :: x = out ++ [c1, c2, c3] ++ x := by simp
    rw [happend]
    by_cases hline : lineLen + 4 ≥ maxLine - 3
    · rw [if_pos hline] at hfuel ⊢
      exact decodeLoop_wrapped outmax x 0 (fuel - 1) eol _ (by simp [eol]) (by omega) hlen
    · rw [if_neg hline] at hfuel ⊢
      exact decodeLoop_wrapped outmax x _ (fuel - 1) [] _ (by simp) (by simp only [List.nil_append]; omega)
        hlen
  | [], lineLen, fuel, pre, out, hpre, hfuel, hout => by
    have hblank : ∀ c ∈ pre ++ wrapped lineLen [], c = 0x0D ∨ c = 0x0A := by
      intro c hc
      rcases List.mem_append.mp hc with hc | hc
      · exact hpre c hc
      · simpa [wrapped, eol] using hc
    rw [decodeLoop_step (by simp [wrapped, eol] at hfuel; omega) (by simp [wrapped, eol])
      (decodeTurn_blanks hblank (by simpa using hout))]
    exact ⟨_, rfl, by simp, rfl⟩
  | [c1], lineLen, fuel, pre, out, hpre, hfuel, hout => by
    obtain ⟨flags, herr, -, hturn⟩ := decodeTurn_quad (quadOne_ok c1) hpre outmax eol out
    rw [put_of_le (by simpa using hout), Option.map_some] at hturn
    rw [wrapped, decodeLoop_step (by simp [wrapped, quadOne] at hfuel; omega) (by simp [quadOne]) hturn]
    exact ⟨_, rfl, rfl, herr⟩
  | [c1, c2], lineLen, fuel, pre, out, hpre, hfuel, hout => by
    obtain ⟨flags, herr, -, hturn⟩ := decodeTurn_quad (quadTwo_ok c1 c2) hpre outmax eol out
    rw [put_of_le (by simpa using hout), Option.map_some] at hturn
    rw [wrapped, decodeLoop_step (by simp [wrapped, quadTwo] at hfuel; omega) (by simp [quadTwo]) hturn]
    exact ⟨_, rfl, rfl, herr⟩

lemma decode_wrapped (x : List UInt8) (outmax : ℕ) : decode64Ex (wrapped 0 x) outmax =
    if outmax < decodeSize (wrapped 0 x).length then some (-1, []) else some (0, x) := by
  rw [decode64Ex]
  split
  · rfl
  · have hsize := ‹¬ outmax < decodeSize (wrapped 0 x).length›
    have hlen := length_wrapped x 0 (by omega)
    rw [Nat.mul_zero] at hlen
    rw [decodeSize, hlen] at hsize
    obtain ⟨s', hs', hout, herr⟩ := decodeLoop_wrapped outmax x 0 (wrapped 0 x).length [] [] (by simp)
      (by simp) (by simp; omega)
    rw [List.nil_append] at hs' hout
    rw [hs', Option.bind_some, hout, put_of_le (by simp; omega), herr]
    rfl

/-- **Encoding and decoding**: the encoder asks for the size that its text and NUL take exactly when
`EncodeFits` says so, the decoder has room for its NUL unless `DecodeStrays`, and a text that both
accept comes back as it was. -/
theorem encode64_decode64 (x y : List UInt8) (outmax outmax' : ℕ) :
    ((encode64Ex x outmax = some (if outmax < (wrapped 0 x).length + 1 then (-1, [])
        else (0, wrapped 0 x))) ↔ EncodeFits x.length outmax) ∧
      ((decode64Ex y outmax').isSome ↔ ¬ DecodeStrays y outmax') ∧
      ∀ r ∈ encode64Ex x outmax, r.1 = 0 → decode64Ex r.2 outmax' =
        if outmax' < decodeSize r.2.length then some (-1, []) else some (0, x) := by
  refine ⟨?_, decode64Ex_isSome y outmax', fun r hr hzero => ?_⟩
  · simp only [encodeFits_iff, encode64Ex_eq, Nat.lt_succ_iff]
    by_cases hsize : outmax < encodeSize x.length
    · rw [if_pos hsize]
      by_cases hle : outmax ≤ (wrapped 0 x).length
      · simp [hle, hsize]
      · simp [hle, hsize]
    · rw [if_neg hsize]
      by_cases hle : outmax ≤ (wrapped 0 x).length
      · simp [hle, hsize]
      · rw [if_pos (by omega)]
        simp [hle, hsize]
  · rw [encode64Ex_eq, Option.mem_def] at hr
    split at hr
    · obtain rfl := Option.some.inj hr
      cases hzero
    · split at hr
      · obtain rfl := Option.some.inj hr
        exact decode_wrapped x outmax'
      · cases hr

/-- The size asked for leaves no room for the NUL of one byte, or of three that are decoded. -/
theorem base64_strays : encode64Ex [0x61] 6 = none ∧ decode64Ex [0x59, 0x57, 0x46, 0x68] 3 = none := by
  decide

end Decoding

end SteepSystem.Texts.Base64
