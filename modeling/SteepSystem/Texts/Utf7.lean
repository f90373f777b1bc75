import SteepSystem.Lib.CStrings
import SteepSystem.Lib.Outputs

/-!
`utf7_to_utf8` and `utf8_to_utf7` (`LIBRARY/common/mail_func.c`): mailbox names in the modified UTF-7
of IMAP. Characters are their code points; in base64 they go as 16 bits each.
-/

namespace SteepSystem.Texts.Utf7

open SteepSystem.Lib.CStrings SteepSystem.Lib.Outputs

def b64Chars (n : ℕ) : UInt8 :=
  UInt8.ofNat (if n < 26 then 0x41 + n else if n < 52 then 0x61 + (n - 26)
    else if n < 62 then 0x30 + (n - 52) else if n = 62 then 0x2B else 0x2C)

/-- `Index_64` -/
def index64 (c : UInt8) : Option ℕ :=
  if 0x41 ≤ c ∧ c ≤ 0x5A then some (c.toNat - 0x41)
  else if 0x61 ≤ c ∧ c ≤ 0x7A then some (c.toNat - 0x61 + 26)
  else if 0x30 ≤ c ∧ c ≤ 0x39 then some (c.toNat - 0x30 + 52)
  else if c = 0x2B then some 62
  else if c = 0x2C then some 63
  else none

/-- The sextet of a character that is one of the alphabet. -/
def sextet (c : UInt8) : Option ℕ := if c &&& 0x80 ≠ 0 then none else index64 c

/-! ### From UTF-7 -/

/-- The bytes of a character of 16 bits. -/
def utf8Char (ch : ℕ) : List UInt8 :=
  if ch < 0x80 then [UInt8.ofNat ch]
  else if ch < 0x800 then [UInt8.ofNat (0xC0 ||| ch >>> 6), UInt8.ofNat (0x80 ||| ch &&& 0x3F)]
  else [UInt8.ofNat (0xE0 ||| ch >>> 12), UInt8.ofNat (0x80 ||| (ch >>> 6) &&& 0x3F),
    UInt8.ofNat (0x80 ||| ch &&& 0x3F)]

/-- What is left of the input, and within a base64 section the bits of the next character with the
place of the next sextet. -/
structure Decoder where
  u7 : List UInt8
  base64 : Option (ℕ × ℤ)

/-- A section begins behind the end of another. -/
def Adjacent (u7 : List UInt8) : Prop := 2 ≤ u7.length ∧ u7.getD 0 0 = 0x26 ∧ u7.getD 1 0 ≠ 0x2D

instance (u7 : List UInt8) : Decidable (Adjacent u7) := inferInstanceAs (Decidable (_ ∧ _))

/-- A turn of the outer loop, or within a section of the inner one, at the character `c`. -/
def decodeChar (c : UInt8) (u7 : List UInt8) : Option (ℕ × ℤ) → Event Decoder UInt8
  | none =>
    if c = 0x26 then
      if u7.head? = some 0x2D then .write [0x26] ⟨u7.tail, none⟩ else .write [] ⟨u7, some (0, 10)⟩
    else if c < 0x20 ∨ c ≥ 0x7F then .fail
    else .write [c] ⟨u7, none⟩
  | some (ch, k) =>
    match sextet c with
    | some b =>
      if k > 0 then .write [] ⟨u7, some (ch ||| b <<< k.toNat, k - 6)⟩
      else
        let ch := ch ||| b >>> (-k).toNat
        if ch < 0x80 ∧ 0x20 ≤ ch ∧ ch < 0x7F then .fail
        else .write (utf8Char ch) ⟨u7, some ((b <<< (16 + k).toNat) &&& 0xFFFF, k + 10)⟩
    | none =>
      if ch ≠ 0 ∨ k < 6 then .fail
      else if c ≠ 0x2D then .fail
      else if Adjacent u7 then .fail
      else .write [] ⟨u7, none⟩

def decodeTurn (s : Decoder) : Event Decoder UInt8 :=
  match s.u7, s.base64 with
  | [], none => .done []
  | [], some _ => .fail
  | c :: u7, base64 => decodeChar c u7 base64

/-- The text in front of the terminating NUL, or `some none` for `-1`. -/
def utf7ToUtf8 (u7 : List UInt8) (u8len : ℕ) : Option (Option (List UInt8)) :=
  run decodeTurn 0 u8len (u7.length + 1) ⟨u7, none⟩ []

/-! ### To UTF-7 -/

/-- The bits of the first byte of a character, and how many bytes follow. -/
def lead (c : UInt8) : Option (ℕ × ℕ) :=
  if c < 0x80 then some (c.toNat, 0)
  else if c < 0xC2 then none
  else if c < 0xE0 then some (c.toNat &&& 0x1F, 1)
  else if c < 0xF0 then some (c.toNat &&& 0x0F, 2)
  else if c < 0xF8 then some (c.toNat &&& 0x07, 3)
  else if c < 0xFC then some (c.toNat &&& 0x03, 4)
  else if c < 0xFE then some (c.toNat &&& 0x01, 5)
  else none

/-- The bytes that follow. -/
def follow : ℕ → ℕ → List UInt8 → Option (ℕ × List UInt8)
  | 0, ch, u8 => some (ch, u8)
  | _ + 1, _, [] => none
  | n + 1, ch, c :: u8 =>
    if c &&& 0xC0 ≠ 0x80 then none else follow n (ch <<< 6 ||| c.toNat &&& 0x3F) u8

def readChar (c : UInt8) (u8 : List UInt8) : Option (ℕ × List UInt8) :=
  (lead c).bind fun (ch, n) => (follow n ch u8).bind fun (ch, u8) =>
    if n > 1 ∧ ch >>> (n * 5 + 1) = 0 then none else some (ch, u8)

/-- What is left of the input, and within a base64 section the bits `b` with the place `k` of the next
character. -/
structure Encoder where
  u8 : List UInt8
  base64 : Option (ℕ × ℤ)

/-- The sextets of a character below the first, with the place behind them. -/
def sextetLoop (ch : ℕ) : ℕ → ℤ → List UInt8 × ℤ
  | 0, k => ([], k)
  | fuel + 1, k =>
    if k ≥ 0 then
      let (text, k') := sextetLoop ch fuel (k - 6)
      (b64Chars ((ch >>> k.toNat) &&& 0x3F) :: text, k')
    else ([], k)

/-- The end of a section. -/
def close : Option (ℕ × ℤ) → List UInt8
  | none => []
  | some (b, k) => (if k > 10 then [b64Chars b] else []) ++ [0x2D]

/-- What is written for a character. -/
def encodeChar (base64 : Option (ℕ × ℤ)) (ch : ℕ) : List UInt8 × Option (ℕ × ℤ) :=
  if ch < 0x20 ∨ ch ≥ 0x7F then
    let (b, k) := base64.getD (0, 10)
    let ch := if ch / 0x10000 ≠ 0 then 0xFFFE else ch
    let (text, k') := sextetLoop ch 3 (k - 6)
    ((if base64 = none then [0x26] else []) ++ b64Chars (b ||| ch >>> k.toNat) :: text,
      some ((ch <<< (-k').toNat) &&& 0x3F, k' + 16))
  else (close base64 ++ UInt8.ofNat ch :: if ch = 0x26 then [0x2D] else [], none)

def encodeTurn (s : Encoder) : Event Encoder UInt8 :=
  match s.u8 with
  | [] => .done (close s.base64)
  | c :: u8 =>
    match readChar c u8 with
    | none => .fail
    | some (ch, u8) => .write (encodeChar s.base64 ch).1 ⟨u8, (encodeChar s.base64 ch).2⟩

/-- The text in front of the terminating NUL, or `some none` for `-1`. -/
def utf8ToUtf7 (u8 : List UInt8) (u7len : ℕ) : Option (Option (List UInt8)) :=
  run encodeTurn 0 u7len (u8.length + 1) ⟨u8, none⟩ []

/-! ### Sextets -/

lemma sextet_b64Chars {n : ℕ} (h : n < 64) : sextet (b64Chars n) = some n := by
  have hall : ∀ n : Fin 64, sextet (b64Chars n) = some (n : ℕ) := by decide +kernel
  exact hall ⟨n, h⟩

lemma b64Chars_ne_minus {n : ℕ} (h : n < 64) : b64Chars n ≠ 0x2D := by
  have hall : ∀ n : Fin 64, b64Chars n ≠ 0x2D := by decide +kernel
  exact hall ⟨n, h⟩

lemma eq_b64Chars {c : UInt8} {b : ℕ} (h : sextet c = some b) : b < 64 ∧ c = b64Chars b := by
  have hall : ∀ c : UInt8, (sextet c).all fun b => b < 64 && c = b64Chars b := by
    refine forall_uint8 ?_
    decide +kernel
  have hc := hall c
  rw [h] at hc
  simpa using hc

lemma and_63 (x : ℕ) : x &&& 0x3F = x % 64 := Nat.and_two_pow_sub_one_eq_mod x 6

lemma and_ffff (x : ℕ) : x &&& 0xFFFF = x % 65536 := Nat.and_two_pow_sub_one_eq_mod x 16

/-- A number over bits that are free. -/
lemma or_eq_add (i a : ℕ) {b : ℕ} (h : b < 2 ^ i) : a * 2 ^ i ||| b = a * 2 ^ i + b := by
  rw [Nat.mul_comm, ← Nat.two_pow_add_eq_or_of_lt h]

/-- A character that stands for itself. -/
def Direct (ch : ℕ) : Prop := 0x20 ≤ ch ∧ ch < 0x7F

instance (ch : ℕ) : Decidable (Direct ch) := inferInstanceAs (Decidable (_ ∧ _))

/-- Where a text stands: outside of a section, or within one, with the low bits of the last character
that have not been written. -/
inductive Mode
  | plain
  | whole
  | four (r : ℕ)
  | two (r : ℕ)

namespace Mode

def Ok : Mode → Prop
  | plain => True
  | whole => True
  | four r => r < 16
  | two r => r < 4

/-- The end of a section. -/
def close : Mode → List UInt8
  | plain => []
  | whole => [0x2D]
  | four r => [b64Chars (4 * r), 0x2D]
  | two r => [b64Chars (16 * r), 0x2D]

/-- A character in base64. -/
def shifted : Mode → ℕ → List UInt8 × Mode
  | plain, u => ([0x26, b64Chars (u / 1024), b64Chars (u / 16 % 64)], four (u % 16))
  | whole, u => ([b64Chars (u / 1024), b64Chars (u / 16 % 64)], four (u % 16))
  | four r, u =>
    ([b64Chars (4 * r + u / 16384), b64Chars (u / 256 % 64), b64Chars (u / 4 % 64)], two (u % 4))
  | two r, u => ([b64Chars (16 * r + u / 4096), b64Chars (u / 64 % 64), b64Chars (u % 64)], whole)

def char (m : Mode) (u : ℕ) : List UInt8 × Mode :=
  if Direct u then (m.close ++ UInt8.ofNat u :: if u = 0x26 then [0x2D] else [], plain)
  else m.shifted u

/-- The variables of the encoder. -/
def encoder : Mode → Option (ℕ × ℤ)
  | plain => none
  | whole => some (0, 10)
  | four r => some (4 * r, 14)
  | two r => some (16 * r, 12)

end Mode

/-- The UTF-7 of characters. -/
def text : Mode → List ℕ → List UInt8
  | m, [] => m.close
  | m, u :: us => (m.char u).1 ++ text (m.char u).2 us

lemma Mode.char_ok {m : Mode} (u : ℕ) : (m.char u).2.Ok := by
  rw [char]
  split
  · trivial
  · cases m with
    | plain | whole => exact Nat.mod_lt _ (by decide)
    | four r => exact Nat.mod_lt _ (by decide)
    | two r => trivial

/-- **A character** is encoded as the mode says. -/
lemma encodeChar_eq {m : Mode} (hm : m.Ok) {u : ℕ} (hu : u < 0x10000) :
    encodeChar m.encoder u = ((m.char u).1, (m.char u).2.encoder) := by
  by_cases hd : Direct u
  · rw [encodeChar, if_neg (by unfold Direct at hd; omega), Mode.char, if_pos hd]
    cases m <;> rfl
  · have hbmp : ¬ u / 0x10000 ≠ 0 := by omega
    rw [encodeChar, if_pos (by unfold Direct at hd; omega), Mode.char, if_neg hd, if_neg hbmp]
    have hplain : u / 1024 % 64 = u / 1024 := by omega
    cases m with
    | plain =>
      simp [Mode.encoder, Mode.shifted, sextetLoop, and_63, Nat.shiftRight_eq_div_pow,
        Nat.shiftLeft_eq]
      omega
    | whole =>
      simp [Mode.encoder, Mode.shifted, sextetLoop, and_63, Nat.shiftRight_eq_div_pow,
        Nat.shiftLeft_eq]
      omega
    | four r =>
      have hor : 4 * r ||| u / 16384 = 4 * r + u / 16384 := by
        have := or_eq_add 2 r (b := u / 16384) (by omega)
        rwa [Nat.mul_comm] at this
      simp [Mode.encoder, Mode.shifted, sextetLoop, and_63, Nat.shiftRight_eq_div_pow,
        Nat.shiftLeft_eq, hor]
      omega
    | two r =>
      have hor : 16 * r ||| u / 4096 = 16 * r + u / 4096 := by
        have := or_eq_add 4 r (b := u / 4096) (by omega)
        rwa [Nat.mul_comm] at this
      simp [Mode.encoder, Mode.shifted, sextetLoop, and_63, Nat.shiftRight_eq_div_pow,
        Nat.shiftLeft_eq, hor]

/-! ### UTF-8 -/

lemma toNat_ofNat {n : ℕ} (h : n < 256) : (UInt8.ofNat n).toNat = n := by
  rw [UInt8.toNat_ofNat']
  omega

lemma utf8Char_two {u : ℕ} (h : 0x80 ≤ u) (h' : u < 0x800) :
    utf8Char u = [UInt8.ofNat (0xC0 + u / 64), UInt8.ofNat (0x80 + u % 64)] := by
  have h1 : 0xC0 ||| u >>> 6 = 0xC0 + u / 64 := by
    rw [Nat.shiftRight_eq_div_pow]
    exact or_eq_add 6 3 (by omega)
  have h2 : 0x80 ||| u &&& 0x3F = 0x80 + u % 64 := by
    rw [and_63]
    exact or_eq_add 7 1 (by omega)
  rw [utf8Char, if_neg (by omega), if_pos h', h1, h2]

lemma utf8Char_three {u : ℕ} (h : 0x800 ≤ u) (h' : u < 0x10000) :
    utf8Char u = [UInt8.ofNat (0xE0 + u / 4096), UInt8.ofNat (0x80 + u / 64 % 64),
      UInt8.ofNat (0x80 + u % 64)] := by
  have h1 : 0xE0 ||| u >>> 12 = 0xE0 + u / 4096 := by
    rw [Nat.shiftRight_eq_div_pow]
    exact or_eq_add 5 7 (by omega)
  have h2 : 0x80 ||| (u >>> 6) &&& 0x3F = 0x80 + u / 64 % 64 := by
    rw [and_63, Nat.shiftRight_eq_div_pow]
    exact or_eq_add 7 1 (by omega)
  have h3 : 0x80 ||| u &&& 0x3F = 0x80 + u % 64 := by
    rw [and_63]
    exact or_eq_add 7 1 (by omega)
  rw [utf8Char, if_neg (by omega), if_neg (by omega), h1, h2, h3]

/-- The first byte of a character of one, two or three bytes. -/
lemma lead_eq : ∀ n : Fin 256, (n.val < 0x80 → lead (UInt8.ofFin n) = some (n.val, 0)) ∧
    (0xC2 ≤ n.val → n.val < 0xE0 → lead (UInt8.ofFin n) = some (n.val - 0xC0, 1)) ∧
    (0xE0 ≤ n.val → n.val < 0xF0 → lead (UInt8.ofFin n) = some (n.val - 0xE0, 2)) ∧
    (0x80 ≤ n.val → n.val < 0xC0 → UInt8.ofFin n &&& 0xC0 = 0x80 ∧
      (UInt8.ofFin n).toNat &&& 0x3F = n.val - 0x80) := by decide +kernel

lemma ofNat_eq_ofFin {n : ℕ} (h : n < 256) : UInt8.ofNat n = UInt8.ofFin ⟨n, h⟩ := by
  rw [← UInt8.toNat_inj, toNat_ofNat h]
  rfl

lemma follow_cons {n ch d : ℕ} (hd : d < 64) (u8 : List UInt8) :
    follow (n + 1) ch (UInt8.ofNat (0x80 + d) :: u8) = follow n (ch * 64 + d) u8 := by
  have hlt : 0x80 + d < 256 := by omega
  obtain ⟨htail, hbits⟩ := (lead_eq ⟨0x80 + d, hlt⟩).2.2.2 (by dsimp only; omega) (by dsimp only; omega)
  have hor : ch <<< 6 ||| d = ch * 64 + d := by
    rw [Nat.shiftLeft_eq]
    exact or_eq_add 6 ch hd
  rw [ofNat_eq_ofFin hlt, follow, if_neg (not_not.mpr htail), hbits]
  dsimp only
  rw [Nat.add_sub_cancel_left, hor]

/-- A character of 16 bits is read back. -/
lemma readChar_utf8Char {u : ℕ} (h : u < 0x10000) (u8 : List UInt8) :
    ∃ c l, utf8Char u = c :: l ∧ readChar c (l ++ u8) = some (u, u8) := by
  by_cases h1 : u < 0x80
  · refine ⟨UInt8.ofNat u, [], by rw [utf8Char, if_pos h1], ?_⟩
    have hlead := (lead_eq ⟨u, by omega⟩).1 h1
    rw [ofNat_eq_ofFin (by omega), readChar, hlead]
    rfl
  by_cases h2 : u < 0x800
  · refine ⟨_, _, utf8Char_two (by omega) h2, ?_⟩
    have hlead := (lead_eq ⟨0xC0 + u / 64, by omega⟩).2.1 (by dsimp only; omega) (by dsimp only; omega)
    have hbits : u / 64 * 64 + u % 64 = u := by omega
    dsimp only at hlead
    rw [Nat.add_sub_cancel_left] at hlead
    rw [readChar, ofNat_eq_ofFin (show 0xC0 + u / 64 < 256 by omega), hlead, Option.bind_some]
    dsimp only [List.cons_append, List.nil_append]
    rw [follow_cons (Nat.mod_lt _ (by decide)), hbits]
    rfl
  · refine ⟨_, _, utf8Char_three (by omega) h, ?_⟩
    have hlead := (lead_eq ⟨0xE0 + u / 4096, by omega⟩).2.2.1 (by dsimp only; omega)
      (by dsimp only; omega)
    have hbits : (u / 4096 * 64 + u / 64 % 64) * 64 + u % 64 = u := by omega
    dsimp only at hlead
    rw [Nat.add_sub_cancel_left] at hlead
    rw [readChar, ofNat_eq_ofFin (show 0xE0 + u / 4096 < 256 by omega), hlead, Option.bind_some]
    dsimp only [List.cons_append, List.nil_append]
    rw [follow_cons (Nat.mod_lt _ (by decide)), follow_cons (Nat.mod_lt _ (by decide)), hbits, follow,
      Option.bind_some, if_neg]
    rw [Nat.shiftRight_eq_div_pow]
    omega

/-- **The encoder** writes the text of its characters. -/
lemma outcome_encode {m : Mode} (hm : m.Ok) {us : List ℕ} (hus : ∀ u ∈ us, u < 0x10000) {fuel : ℕ}
    (hfuel : us.length < fuel) :
    outcome encodeTurn fuel ⟨us.flatMap utf8Char, m.encoder⟩ = some (text m us) := by
  induction us generalizing m fuel with
  | nil =>
    obtain ⟨fuel, rfl⟩ := Nat.exists_eq_succ_of_ne_zero (Nat.ne_of_gt hfuel)
    rw [outcome, text]
    cases m with
    | plain | whole => rfl
    | four r | two r => rfl
  | cons u us ih =>
    rw [List.forall_mem_cons] at hus
    rw [List.length_cons] at hfuel
    obtain ⟨fuel, rfl⟩ := Nat.exists_eq_succ_of_ne_zero (Nat.ne_of_gt (Nat.zero_lt_of_lt hfuel))
    obtain ⟨c, l, hchar, hread⟩ := readChar_utf8Char hus.1 (us.flatMap utf8Char)
    have hturn : encodeTurn ⟨(u :: us).flatMap utf8Char, m.encoder⟩ =
        .write (m.char u).1 ⟨us.flatMap utf8Char, (m.char u).2.encoder⟩ := by
      rw [List.flatMap_cons, hchar, encodeTurn]
      dsimp only [List.cons_append]
      rw [hread]
      dsimp only
      rw [encodeChar_eq hm hus.1]
    rw [outcome, hturn]
    dsimp only
    rw [ih (Mode.char_ok u) hus.2 (by omega)]
    rfl

/-! ### The decoder -/

/-- What the decoder makes of a text when there is room. -/
def utf8Of (s : Decoder) : Option (List UInt8) := outcome decodeTurn (s.u7.length + 1) s

/-- Within a section, `q` bits of the next character have the value `v`. -/
def bits (q v : ℕ) : ℕ × ℤ := (v * 2 ^ (16 - q), 10 - q)

lemma length_utf8Char (u : ℕ) : 1 ≤ (utf8Char u).length ∧ (utf8Char u).length ≤ 3 := by
  rw [utf8Char]
  split
  · simp
  · split
    · simp
    · simp

/-- A character is refused, or goes with a piece of at most three bytes. -/
lemma decodeChar_cases (c : UInt8) (u7 : List UInt8) (base64 : Option (ℕ × ℤ)) :
    decodeChar c u7 base64 = .fail ∨ ∃ piece s, decodeChar c u7 base64 = .write piece s ∧
      piece.length ≤ 3 ∧ s.u7.length ≤ u7.length := by
  cases base64 with
  | none =>
    rw [decodeChar]
    split
    · split
      · exact Or.inr ⟨_, _, rfl, Nat.le_add_left _ _, by simp⟩
      · exact Or.inr ⟨_, _, rfl, Nat.zero_le _, le_refl _⟩
    · split
      · exact Or.inl rfl
      · exact Or.inr ⟨_, _, rfl, Nat.le_add_left _ _, le_refl _⟩
  | some st =>
    rw [decodeChar]
    cases sextet c with
    | some b =>
      dsimp only
      split
      · exact Or.inr ⟨_, _, rfl, Nat.zero_le _, le_refl _⟩
      · split
        · exact Or.inl rfl
        · exact Or.inr ⟨_, _, rfl, (length_utf8Char _).2, le_refl _⟩
    | none =>
      dsimp only
      split
      · exact Or.inl rfl
      · split
        · exact Or.inl rfl
        · split
          · exact Or.inl rfl
          · exact Or.inr ⟨_, _, rfl, Nat.zero_le _, le_refl _⟩

lemma decodeTurn_cases (s : Decoder) : decodeTurn s = .fail ∨ decodeTurn s = .done [] ∨
    ∃ piece s', decodeTurn s = .write piece s' ∧ piece.length ≤ 3 ∧ s'.u7.length < s.u7.length := by
  obtain ⟨u7, base64⟩ := s
  cases u7 with
  | nil =>
    cases base64 with
    | none => exact Or.inr (Or.inl rfl)
    | some st => exact Or.inl rfl
  | cons c u7 =>
    rcases decodeChar_cases c u7 base64 with h | ⟨piece, s, h, hlen, hle⟩
    · exact Or.inl h
    · exact Or.inr (Or.inr ⟨piece, s, h, hlen, Nat.lt_succ_of_le hle⟩)

lemma length_of_decodeTurn {s s' : Decoder} {piece : List UInt8} (h : decodeTurn s = .write piece s') :
    s'.u7.length < s.u7.length := by
  rcases decodeTurn_cases s with h' | h' | ⟨_, _, h', -, hlt⟩
  · cases h.symm.trans h'
  · cases h.symm.trans h'
  · cases h.symm.trans h'
    exact hlt

/-- What a piece and what the rest gives make up. -/
lemma utf8Of_write {s s' : Decoder} {piece : List UInt8} (h : decodeTurn s = .write piece s') :
    utf8Of s = (utf8Of s').map (piece ++ ·) := by
  have hlt := length_of_decodeTurn h
  rw [utf8Of, outcome, h]
  dsimp only
  rw [outcome_congr length_of_decodeTurn hlt (Nat.lt_succ_self _)]
  rfl

lemma utf8Of_nil : utf8Of ⟨[], none⟩ = some [] := rfl

variable {b q v : ℕ} {u7 r : List UInt8}

/-- A sextet that does not end a character. -/
lemma utf8Of_bits (hb : b < 64) (hq : q < 10) :
    utf8Of ⟨b64Chars b :: u7, some (bits q v)⟩ = utf8Of ⟨u7, some (bits (q + 6) (v * 64 + b))⟩ := by
  have hplace : (10 - (q : ℤ)).toNat = 10 - q := by omega
  have hch : v * 2 ^ (16 - q) ||| b <<< (10 - q) = (v * 64 + b) * 2 ^ (10 - q) := by
    rw [show 16 - q = 6 + (10 - q) by omega, pow_add, ← Nat.mul_assoc, ← Nat.shiftLeft_eq,
      ← Nat.shiftLeft_or_distrib, or_eq_add 6 v hb, Nat.shiftLeft_eq]
    rfl
  have hturn : decodeTurn ⟨b64Chars b :: u7, some (bits q v)⟩ =
      .write [] ⟨u7, some (bits (q + 6) (v * 64 + b))⟩ := by
    rw [decodeTurn, bits]
    dsimp only [decodeChar]
    rw [sextet_b64Chars hb]
    dsimp only
    rw [if_pos (by omega), hplace, hch, bits, show 16 - (q + 6) = 10 - q by omega]
    push_cast
    rw [sub_sub]
  rw [utf8Of_write hturn]
  exact Option.map_id'

/-- A sextet that ends a character. -/
lemma utf8Of_char (hb : b < 64) (hq : 10 ≤ q) (hq' : q ≤ 16) :
    utf8Of ⟨b64Chars b :: u7, some (bits q v)⟩ =
      if Direct (v * 2 ^ (16 - q) + b / 2 ^ (q - 10)) then none
      else (utf8Of ⟨u7, some (bits (q - 10) (b % 2 ^ (q - 10)))⟩).map
        (utf8Char (v * 2 ^ (16 - q) + b / 2 ^ (q - 10)) ++ ·) := by
  have hplace : (-(10 - (q : ℤ))).toNat = q - 10 := by omega
  have hplace' : (16 + (10 - (q : ℤ))).toNat = 26 - q := by omega
  have hsplit : (2 : ℕ) ^ (q - 10) * 2 ^ (16 - q) = 64 := by
    rw [← pow_add, show q - 10 + (16 - q) = 6 by omega]
    rfl
  have hch : v * 2 ^ (16 - q) ||| b >>> (q - 10) = v * 2 ^ (16 - q) + b / 2 ^ (q - 10) := by
    rw [Nat.shiftRight_eq_div_pow]
    exact or_eq_add _ v (Nat.div_lt_of_lt_mul (by rwa [hsplit]))
  have hleft : (b <<< (26 - q)) &&& 0xFFFF = b % 2 ^ (q - 10) * 2 ^ (26 - q) := by
    rw [and_ffff, Nat.shiftLeft_eq, show 65536 = 2 ^ (q - 10) * 2 ^ (26 - q) by
      rw [← pow_add, show q - 10 + (26 - q) = 16 by omega]
      rfl, Nat.mul_mod_mul_right]
  have hturn : decodeTurn ⟨b64Chars b :: u7, some (bits q v)⟩ =
      if Direct (v * 2 ^ (16 - q) + b / 2 ^ (q - 10)) then .fail
      else .write (utf8Char (v * 2 ^ (16 - q) + b / 2 ^ (q - 10)))
        ⟨u7, some (bits (q - 10) (b % 2 ^ (q - 10)))⟩ := by
    rw [decodeTurn, bits]
    dsimp only [decodeChar]
    rw [sextet_b64Chars hb]
    dsimp only
    rw [if_neg (by omega), hplace, hplace', hch, hleft, bits, show 16 - (q - 10) = 26 - q by omega]
    refine if_congr ?_ rfl ?_
    · unfold Direct
      omega
    · rw [Nat.cast_sub hq]
      congr 4
      push_cast
      omega
  split
  · rw [utf8Of, outcome, hturn, if_pos ‹_›]
  · rw [if_neg ‹_›] at hturn
    exact utf8Of_write hturn

lemma utf8Of_direct {u : ℕ} (hd : Direct u) (h : u ≠ 0x26) :
    utf8Of ⟨UInt8.ofNat u :: u7, none⟩ = (utf8Of ⟨u7, none⟩).map (utf8Char u ++ ·) := by
  have hturn : decodeTurn ⟨UInt8.ofNat u :: u7, none⟩ = .write [UInt8.ofNat u] ⟨u7, none⟩ := by
    unfold Direct at hd
    have hc := toNat_ofNat (show u < 256 by omega)
    rw [decodeTurn]
    dsimp only [decodeChar]
    rw [if_neg, if_neg]
    · simp only [UInt8.lt_iff_toNat_lt, ge_iff_le, UInt8.le_iff_toNat_le, hc]
      show ¬ (u < 32 ∨ 127 ≤ u)
      omega
    · rw [← UInt8.toNat_inj, hc]
      exact h
  rw [utf8Of_write hturn, utf8Char, if_pos (by unfold Direct at hd; omega)]

lemma utf8Of_amp : utf8Of ⟨0x26 :: 0x2D :: u7, none⟩ = (utf8Of ⟨u7, none⟩).map ([0x26] ++ ·) :=
  utf8Of_write rfl

lemma utf8Of_open (h : u7.head? ≠ some 0x2D) :
    utf8Of ⟨0x26 :: u7, none⟩ = utf8Of ⟨u7, some (bits 0 0)⟩ := by
  have hturn : decodeTurn ⟨0x26 :: u7, none⟩ = .write [] ⟨u7, some (bits 0 0)⟩ := by
    rw [decodeTurn]
    dsimp only [decodeChar]
    rw [if_pos rfl, if_neg h]
    rfl
  rw [utf8Of_write hturn]
  exact Option.map_id'

lemma utf8Of_close (hq : q ≤ 4) (h : ¬ Adjacent u7) :
    utf8Of ⟨0x2D :: u7, some (bits q 0)⟩ = utf8Of ⟨u7, none⟩ := by
  have hturn : decodeTurn ⟨0x2D :: u7, some (bits q 0)⟩ = .write [] ⟨u7, none⟩ := by
    have hnone : sextet 0x2D = none := by decide
    rw [decodeTurn]
    dsimp only [decodeChar, bits]
    rw [hnone]
    dsimp only
    rw [if_neg (by omega), if_neg (by decide), if_neg h]
  rw [utf8Of_write hturn]
  exact Option.map_id'

/-- Within a section the next character is one of the alphabet, or ends it where no bits are left. -/
lemma inside_section (h : utf8Of ⟨u7, some (bits q v)⟩ = some r) :
    (∃ b u7', b < 64 ∧ u7 = b64Chars b :: u7') ∨
      ∃ u7', u7 = 0x2D :: u7' ∧ q ≤ 4 ∧ v * 2 ^ (16 - q) = 0 ∧ ¬ Adjacent u7' := by
  cases u7 with
  | nil => cases h
  | cons c u7 =>
    cases hc : sextet c with
    | some b => exact Or.inl ⟨b, u7, (eq_b64Chars hc).1, by rw [← (eq_b64Chars hc).2]⟩
    | none =>
      refine Or.inr ⟨u7, ?_⟩
      have hturn : decodeTurn ⟨c :: u7, some (bits q v)⟩ ≠ .fail := by
        intro hfail
        rw [utf8Of, outcome, hfail] at h
        cases h
      rw [decodeTurn] at hturn
      dsimp only [decodeChar, bits] at hturn
      rw [hc] at hturn
      dsimp only at hturn
      split at hturn
      · exact absurd rfl hturn
      · split at hturn
        · exact absurd rfl hturn
        · split at hturn
          · exact absurd rfl hturn
          · exact ⟨by rw [show c = 0x2D from not_not.mp ‹_›], by omega, by omega, ‹_›⟩

/-! ### Stages -/

/-- Where the decoder stands in a text: within a section, with the character of which some bits may be
missing. -/
inductive Stage
  | plain
  | whole
  | four (u : ℕ)
  | two (u : ℕ)

namespace Stage

def mode : Stage → Mode
  | plain => .plain
  | whole => .whole
  | four u => .four (u % 16)
  | two u => .two (u % 4)

def base64 : Stage → Option (ℕ × ℤ)
  | plain => none
  | whole => some (bits 0 0)
  | four u => some (bits 12 (u / 16))
  | two u => some (bits 14 (u / 4))

/-- The characters that are begun. -/
def begun : Stage → List ℕ
  | plain | whole => []
  | four u | two u => [u]

def Ok (s : Stage) : Prop := ∀ u ∈ s.begun, ¬ Direct u ∧ u < 0x10000

/-- After a character in base64. -/
def next : Stage → ℕ → Stage
  | plain, u | whole, u => four u
  | four _, u => two u
  | two _, _ => whole

/-- The characters that it ends. -/
def ended : Stage → ℕ → List ℕ
  | plain, _ | whole, _ => []
  | four v, _ => [v]
  | two v, u => [v, u]

end Stage

lemma utf8Of_stage_close {s : Stage} (hs : s.Ok) (h : ¬ Adjacent u7) :
    utf8Of ⟨s.mode.close ++ u7, s.base64⟩ =
      (utf8Of ⟨u7, none⟩).map (s.begun.flatMap utf8Char ++ ·) := by
  have hid : (utf8Of ⟨u7, none⟩).map (([] : List UInt8) ++ ·) = utf8Of ⟨u7, none⟩ := Option.map_id'
  cases s with
  | plain => exact hid.symm
  | whole =>
    refine Eq.trans ?_ hid.symm
    exact utf8Of_close (by decide) h
  | four u =>
    obtain ⟨hdirect, hlt⟩ := hs u (List.mem_singleton_self u)
    have hu : u / 16 * 2 ^ (16 - 12) + 4 * (u % 16) / 2 ^ (12 - 10) = u := by omega
    refine (utf8Of_char (by omega) (by decide) (by decide)).trans ?_
    rw [hu, if_neg hdirect, show 4 * (u % 16) % 2 ^ (12 - 10) = 0 by omega]
    refine congrArg₂ _ ?_ (utf8Of_close (by decide) h)
    simp [Stage.begun]
  | two u =>
    obtain ⟨hdirect, hlt⟩ := hs u (List.mem_singleton_self u)
    have hu : u / 4 * 2 ^ (16 - 14) + 16 * (u % 4) / 2 ^ (14 - 10) = u := by omega
    refine (utf8Of_char (by omega) (by decide) (by decide)).trans ?_
    rw [hu, if_neg hdirect, show 16 * (u % 4) % 2 ^ (14 - 10) = 0 by omega]
    refine congrArg₂ _ ?_ (utf8Of_close (by decide) h)
    simp [Stage.begun]

lemma utf8Of_shifted {s : Stage} (hs : s.Ok) {u : ℕ} (hu : ¬ Direct u) (hlt : u < 0x10000) :
    utf8Of ⟨(s.mode.shifted u).1 ++ u7, s.base64⟩ =
      (utf8Of ⟨u7, (s.next u).base64⟩).map ((s.ended u).flatMap utf8Char ++ ·) := by
  have hid (s : Decoder) : utf8Of s = (utf8Of s).map (([] : List UInt8) ++ ·) := Option.map_id'.symm
  have hwhole : utf8Of ⟨b64Chars (u / 1024) :: b64Chars (u / 16 % 64) :: u7, some (bits 0 0)⟩ =
      utf8Of ⟨u7, some (bits 12 (u / 16))⟩ := by
    rw [utf8Of_bits (by omega) (by decide), utf8Of_bits (by omega) (by decide),
      show (0 * 64 + u / 1024) * 64 + u / 16 % 64 = u / 16 by omega]
  cases s with
  | plain =>
    refine Eq.trans ?_ (hid _)
    refine (utf8Of_open ?_).trans hwhole
    exact fun h => b64Chars_ne_minus (by omega) (Option.some.inj h)
  | whole => exact hwhole.trans (hid _)
  | four v =>
    obtain ⟨hdirect, hv⟩ := hs v (List.mem_singleton_self v)
    have hchar : v / 16 * 2 ^ (16 - 12) + (4 * (v % 16) + u / 16384) / 2 ^ (12 - 10) = v := by omega
    refine (utf8Of_char (by omega) (by decide) (by decide)).trans ?_
    rw [hchar, if_neg hdirect]
    refine congrArg₂ _ ?_ ?_
    · simp [Stage.ended]
    · refine (utf8Of_bits (by omega) (by decide)).trans ?_
      refine (utf8Of_bits (by omega) (by decide)).trans ?_
      rw [show ((4 * (v % 16) + u / 16384) % 2 ^ (12 - 10) * 64 + u / 256 % 64) * 64 + u / 4 % 64 =
        u / 4 by omega]
      rfl
  | two v =>
    obtain ⟨hdirect, hv⟩ := hs v (List.mem_singleton_self v)
    have hchar : v / 4 * 2 ^ (16 - 14) + (16 * (v % 4) + u / 4096) / 2 ^ (14 - 10) = v := by omega
    have hchar' : ((16 * (v % 4) + u / 4096) % 2 ^ (14 - 10) * 64 + u / 64 % 64) * 2 ^ (16 - 10) +
        u % 64 / 2 ^ (10 - 10) = u := by omega
    refine (utf8Of_char (by omega) (by decide) (by decide)).trans ?_
    rw [hchar, if_neg hdirect]
    refine (congrArg _ (utf8Of_bits (by omega) (by decide))).trans ?_
    refine (congrArg _ (utf8Of_char (by omega) (by decide) (by decide))).trans ?_
    rw [hchar', if_neg hu, Option.map_map, Nat.sub_self, pow_zero, Nat.mod_one]
    refine congrArg₂ _ ?_ rfl
    funext t
    simp [Stage.ended]

lemma Stage.mode_next (s : Stage) (u : ℕ) : (s.mode.shifted u).2 = (s.next u).mode := by
  cases s <;> rfl

lemma Stage.ended_append_begun (s : Stage) (u : ℕ) :
    s.ended u ++ (s.next u).begun = s.begun ++ [u] := by
  cases s <;> rfl

lemma Stage.ok_next {s : Stage} (hs : s.Ok) {u : ℕ} (hu : ¬ Direct u) (hlt : u < 0x10000) :
    (s.next u).Ok := by
  intro w hw
  have hmem : w ∈ s.begun ++ [u] := by
    rw [← s.ended_append_begun]
    exact List.mem_append_right _ hw
  rcases List.mem_append.mp hmem with hw | hw
  · exact hs w hw
  · rw [List.mem_singleton.mp hw]
    exact ⟨hu, hlt⟩

/-- A character outside of base64. -/
lemma utf8Of_plain {u : ℕ} (hu : Direct u) :
    utf8Of ⟨(UInt8.ofNat u :: if u = 0x26 then [0x2D] else []) ++ u7, none⟩ =
      (utf8Of ⟨u7, none⟩).map (utf8Char u ++ ·) := by
  split
  · subst u
    exact utf8Of_amp
  · exact utf8Of_direct hu ‹_›

lemma not_adjacent_plain {u : ℕ} (hu : Direct u) :
    ¬ Adjacent ((UInt8.ofNat u :: if u = 0x26 then [0x2D] else []) ++ u7) := by
  rintro ⟨-, hamp, hminus⟩
  have heq : u = 0x26 := by
    have hnat : (UInt8.ofNat u).toNat = 0x26 := congrArg UInt8.toNat hamp
    rwa [toNat_ofNat (by unfold Direct at hu; omega)] at hnat
  rw [if_pos heq] at hminus
  exact hminus rfl

/-- **The decoder** reads a text back. -/
lemma utf8Of_text {s : Stage} (hs : s.Ok) {us : List ℕ} (hus : ∀ u ∈ us, u < 0x10000) :
    utf8Of ⟨text s.mode us, s.base64⟩ = some ((s.begun ++ us).flatMap utf8Char) := by
  induction us generalizing s with
  | nil =>
    have hnot : ¬ Adjacent [] := fun h => absurd h.1 (by decide)
    have hclose := utf8Of_stage_close hs hnot
    rw [List.append_nil, utf8Of_nil, Option.map_some, List.append_nil] at hclose
    rw [text, hclose, List.append_nil]
  | cons u us ih =>
    rw [List.forall_mem_cons] at hus
    rw [text, Mode.char]
    by_cases hu : Direct u
    · have ih := ih (s := .plain) (fun w hw => absurd hw List.not_mem_nil) hus.2
      rw [if_pos hu, List.append_assoc, utf8Of_stage_close hs (not_adjacent_plain hu), utf8Of_plain hu]
      rw [show utf8Of ⟨text .plain us, none⟩ = _ from ih]
      simp [Stage.begun]
    · have ih := ih (Stage.ok_next hs hu hus.1) hus.2
      rw [if_neg hu, s.mode_next, utf8Of_shifted hs hu hus.1, ih, Option.map_some,
        ← List.flatMap_append, ← List.append_assoc, s.ended_append_begun, List.append_assoc]
      rfl

/-! ### Texts that are accepted -/

lemma adjacent_shifted {u : ℕ} (hu : ¬ Direct u) (hlt : u < 0x10000) (us : List ℕ) :
    Adjacent (text .plain (u :: us)) := by
  rw [text, Mode.char, if_neg hu]
  exact ⟨Nat.le_add_left _ _, rfl, b64Chars_ne_minus (by omega)⟩

/-- A section may end in front of a text that begins no other. -/
lemma text_of_close {us : List ℕ} (hus : ∀ u ∈ us, u < 0x10000)
    (h : ¬ Adjacent (text .plain us)) (m : Mode) : text m us = m.close ++ text .plain us := by
  cases us with
  | nil => exact (List.append_nil _).symm
  | cons u us =>
    by_cases hu : Direct u
    · rw [text, text, Mode.char, Mode.char, if_pos hu, if_pos hu, List.append_assoc]
      rfl
    · exact absurd (adjacent_shifted hu (hus u List.mem_cons_self) us) h

lemma text_open {us : List ℕ} (h : (text .whole us).head? ≠ some 0x2D) :
    0x26 :: text .whole us = text .plain us := by
  cases us with
  | nil => exact absurd rfl h
  | cons u us =>
    by_cases hu : Direct u
    · rw [text, Mode.char, if_pos hu] at h
      exact absurd rfl h
    · rw [text, text, Mode.char, Mode.char, if_neg hu, if_neg hu]
      rfl

/-- The rest of a text behind some characters, in each mode. -/
structure Parsed (x : List UInt8) : Prop where
  plain : ∀ {r}, utf8Of ⟨x, none⟩ = some r →
    ∃ us : List ℕ, (∀ u ∈ us, u < 0x10000) ∧ x = text .plain us ∧ r = us.flatMap utf8Char
  whole : ∀ {r}, utf8Of ⟨x, some (bits 0 0)⟩ = some r →
    ∃ us : List ℕ, (∀ u ∈ us, u < 0x10000) ∧ x = text .whole us ∧ r = us.flatMap utf8Char
  four : ∀ {r a}, utf8Of ⟨x, some (bits 12 a)⟩ = some r →
    ∃ u us, u / 16 = a ∧ ¬ Direct u ∧ (∀ u ∈ us, u < 0x10000) ∧ x = text (.four (u % 16)) us ∧
      r = (u :: us).flatMap utf8Char
  two : ∀ {r a}, utf8Of ⟨x, some (bits 14 a)⟩ = some r →
    ∃ u us, u / 4 = a ∧ ¬ Direct u ∧ (∀ u ∈ us, u < 0x10000) ∧ x = text (.two (u % 4)) us ∧
      r = (u :: us).flatMap utf8Char

section Parsing

variable {x : List UInt8} (ih : ∀ y : List UInt8, y.length < x.length → Parsed y)
include ih

lemma parsed_plain (h : utf8Of ⟨x, none⟩ = some r) :
    ∃ us : List ℕ, (∀ u ∈ us, u < 0x10000) ∧ x = text .plain us ∧ r = us.flatMap utf8Char := by
  cases x with
  | nil => exact ⟨[], by simp, rfl, (Option.some.inj h).symm⟩
  | cons c y =>
    by_cases hamp : c = 0x26
    · subst hamp
      by_cases hminus : y.head? = some 0x2D
      · obtain ⟨y, rfl⟩ : ∃ y', y = 0x2D :: y' := by
          cases y with
          | nil => cases hminus
          | cons d y => exact ⟨y, by rw [Option.some.inj hminus]⟩
        rw [utf8Of_amp] at h
        obtain ⟨t, ht, rfl⟩ := Option.map_eq_some_iff.mp h
        obtain ⟨us, hus, rfl, rfl⟩ := (ih y (by simp)).plain ht
        exact ⟨0x26 :: us, List.forall_mem_cons.mpr ⟨by decide, hus⟩, rfl, rfl⟩
      · rw [utf8Of_open hminus] at h
        obtain ⟨us, hus, rfl, rfl⟩ := (ih y (by simp)).whole h
        exact ⟨us, hus, text_open hminus, rfl⟩
    · have hd : Direct c.toNat := by
        by_contra hd
        have hfail : decodeTurn ⟨c :: y, none⟩ = .fail := by
          rw [decodeTurn]
          dsimp only [decodeChar]
          rw [if_neg hamp, if_pos]
          rw [UInt8.lt_iff_toNat_lt, ge_iff_le, UInt8.le_iff_toNat_le]
          change c.toNat < 0x20 ∨ 0x7F ≤ c.toNat
          unfold Direct at hd
          omega
        rw [utf8Of, outcome, hfail] at h
        cases h
      have hne : c.toNat ≠ 0x26 := fun h => hamp (UInt8.toNat_inj.mp h)
      have hc : UInt8.ofNat c.toNat = c := UInt8.ofNat_toNat
      have hstep : utf8Of ⟨UInt8.ofNat c.toNat :: y, none⟩ = _ := utf8Of_direct hd hne
      rw [hc, h] at hstep
      obtain ⟨t, ht, hr⟩ := Option.map_eq_some_iff.mp hstep.symm
      obtain ⟨us, hus, rfl, rfl⟩ := (ih y (by simp)).plain ht
      refine ⟨c.toNat :: us, List.forall_mem_cons.mpr ⟨?_, hus⟩, ?_, hr.symm⟩
      · exact lt_trans (UInt8.toNat_lt c) (by decide)
      · rw [text, Mode.char, if_pos hd, if_neg hne, hc]
        rfl

/-- What follows where a section may end: its end, or a sextet. -/
lemma parsed_close (hq : q ≤ 4) (h : utf8Of ⟨0x2D :: u7, some (bits q 0)⟩ = some r)
    (hnot : ¬ Adjacent u7) (hlen : u7.length < x.length) :
    ∃ us : List ℕ, (∀ u ∈ us, u < 0x10000) ∧ (∀ m : Mode, text m us = m.close ++ u7) ∧
      r = us.flatMap utf8Char := by
  rw [utf8Of_close hq hnot] at h
  obtain ⟨us, hus, rfl, rfl⟩ := (ih u7 hlen).plain h
  exact ⟨us, hus, text_of_close hus hnot, rfl⟩

lemma parsed_whole (h : utf8Of ⟨x, some (bits 0 0)⟩ = some r) :
    ∃ us : List ℕ, (∀ u ∈ us, u < 0x10000) ∧ x = text .whole us ∧ r = us.flatMap utf8Char := by
  rcases inside_section h with ⟨b, y, hb, rfl⟩ | ⟨y, rfl, -, -, hnot⟩
  · rw [utf8Of_bits hb (by decide)] at h
    rcases inside_section h with ⟨c, z, hc, rfl⟩ | ⟨z, rfl, hq, -⟩
    · rw [utf8Of_bits hc (by decide)] at h
      obtain ⟨u, us, hu, hd, hus, rfl, rfl⟩ := (ih z (by simp)).four h
      refine ⟨u :: us, List.forall_mem_cons.mpr ⟨by omega, hus⟩, ?_, rfl⟩
      rw [text, Mode.char, if_neg hd, show b = u / 1024 by omega, show c = u / 16 % 64 by omega]
      rfl
    · exact absurd hq (by decide)
  · obtain ⟨us, hus, htext, rfl⟩ := parsed_close ih (by decide) h hnot (by simp)
    exact ⟨us, hus, (htext .whole).symm, rfl⟩

lemma parsed_four {a : ℕ} (h : utf8Of ⟨x, some (bits 12 a)⟩ = some r) :
    ∃ u us, u / 16 = a ∧ ¬ Direct u ∧ (∀ u ∈ us, u < 0x10000) ∧ x = text (.four (u % 16)) us ∧
      r = (u :: us).flatMap utf8Char := by
  rcases inside_section h with ⟨b, y, hb, rfl⟩ | ⟨y, rfl, hq, -⟩
  · rw [utf8Of_char hb (by decide) (by decide)] at h
    obtain ⟨u, hu⟩ : ∃ u, u = a * 2 ^ (16 - 12) + b / 2 ^ (12 - 10) := ⟨_, rfl⟩
    rw [← hu] at h
    split at h
    · cases h
    obtain ⟨t, ht, rfl⟩ := Option.map_eq_some_iff.mp h
    refine ⟨u, ?_⟩
    rcases inside_section ht with ⟨c, z, hc, rfl⟩ | ⟨z, rfl, -, hzero, hnot⟩
    · rw [utf8Of_bits hc (by decide)] at ht
      rcases inside_section ht with ⟨d, w, hd, rfl⟩ | ⟨w, rfl, hq, -⟩
      · rw [utf8Of_bits hd (by decide)] at ht
        obtain ⟨v, us, hv, hdirect, hus, rfl, rfl⟩ := (ih w (by simp; omega)).two ht
        refine ⟨v :: us, by omega, ‹_›, List.forall_mem_cons.mpr ⟨by omega, hus⟩, ?_, rfl⟩
        rw [text, Mode.char, if_neg hdirect, show b = 4 * (u % 16) + v / 16384 by omega,
          show c = v / 256 % 64 by omega, show d = v / 4 % 64 by omega]
        rfl
      · exact absurd hq (by decide)
    · have hleft : b % 2 ^ (12 - 10) = 0 := by omega
      rw [hleft] at ht
      obtain ⟨us, hus, htext, rfl⟩ := parsed_close ih (by decide) ht hnot (by simp)
      refine ⟨us, by omega, ‹_›, hus, ?_, rfl⟩
      rw [htext, show b = 4 * (u % 16) by omega]
      rfl
  · exact absurd hq (by decide)

lemma parsed_two {a : ℕ} (h : utf8Of ⟨x, some (bits 14 a)⟩ = some r) :
    ∃ u us, u / 4 = a ∧ ¬ Direct u ∧ (∀ u ∈ us, u < 0x10000) ∧ x = text (.two (u % 4)) us ∧
      r = (u :: us).flatMap utf8Char := by
  rcases inside_section h with ⟨b, y, hb, rfl⟩ | ⟨y, rfl, hq, -⟩
  · rw [utf8Of_char hb (by decide) (by decide)] at h
    obtain ⟨u, hu⟩ : ∃ u, u = a * 2 ^ (16 - 14) + b / 2 ^ (14 - 10) := ⟨_, rfl⟩
    rw [← hu] at h
    split at h
    · cases h
    obtain ⟨t, ht, rfl⟩ := Option.map_eq_some_iff.mp h
    refine ⟨u, ?_⟩
    rcases inside_section ht with ⟨c, z, hc, rfl⟩ | ⟨z, rfl, -, hzero, hnot⟩
    · rw [utf8Of_bits hc (by decide)] at ht
      rcases inside_section ht with ⟨d, w, hd, rfl⟩ | ⟨w, rfl, hq, -⟩
      · rw [utf8Of_char hd (by decide) (by decide)] at ht
        obtain ⟨v, hv⟩ : ∃ v, v = (b % 2 ^ (14 - 10) * 64 + c) * 2 ^ (16 - 10) +
            d / 2 ^ (10 - 10) := ⟨_, rfl⟩
        rw [← hv] at ht
        split at ht
        · cases ht
        obtain ⟨t', ht', rfl⟩ := Option.map_eq_some_iff.mp ht
        rw [Nat.sub_self, pow_zero, Nat.mod_one] at ht'
        obtain ⟨us, hus, rfl, rfl⟩ := (ih w (by simp; omega)).whole ht'
        refine ⟨v :: us, by omega, ‹_›, List.forall_mem_cons.mpr ⟨by omega, hus⟩, ?_, rfl⟩
        rw [text, Mode.char, if_neg ‹_›, show b = 16 * (u % 4) + v / 4096 by omega,
          show c = v / 64 % 64 by omega, show d = v % 64 by omega]
        rfl
      · exact absurd hq (by decide)
    · have hleft : b % 2 ^ (14 - 10) = 0 := by omega
      rw [hleft] at ht
      obtain ⟨us, hus, htext, rfl⟩ := parsed_close ih (by decide) ht hnot (by simp)
      refine ⟨us, by omega, ‹_›, hus, ?_, rfl⟩
      rw [htext, show b = 16 * (u % 4) by omega]
      rfl
  · exact absurd hq (by decide)

end Parsing

/-- **What the decoder accepts** is the text of the characters that it writes. -/
lemma parsed (x : List UInt8) : Parsed x := by
  induction hn : x.length using Nat.strong_induction_on generalizing x with
  | _ n ih =>
    have ih : ∀ y : List UInt8, y.length < x.length → Parsed y := fun y hy => ih _ (hn ▸ hy) y rfl
    exact ⟨parsed_plain ih, parsed_whole ih, parsed_four ih, parsed_two ih⟩

/-! ### What is written -/

lemma length_le_flatMap (us : List ℕ) : us.length ≤ (us.flatMap utf8Char).length := by
  induction us with
  | nil => exact le_refl _
  | cons u us ih =>
    have := (length_utf8Char u).1
    rw [List.flatMap_cons, List.length_append, List.length_cons]
    omega

lemma length_le_of_mem_pieces {fuel : ℕ} {s : Decoder} :
    ∀ piece ∈ pieces decodeTurn 0 fuel s, piece.length ≤ 3 := by
  induction fuel generalizing s with
  | zero => simp [pieces]
  | succ fuel ih =>
    rw [pieces]
    rcases decodeTurn_cases s with h | h | ⟨piece, s', h, hlen, -⟩
    · simp [h]
    · simp [h]
    · rw [h]
      exact List.forall_mem_cons.mpr ⟨hlen, ih⟩

/-- No character of three bytes begins where two bytes are left. -/
lemma inside_decode {cap fuel : ℕ} {s : Decoder} : Inside cap 0 (pieces decodeTurn 0 fuel s) ↔
    ∀ before piece after, pieces decodeTurn 0 fuel s = before ++ piece :: after →
      piece.length = 3 → before.flatten.length + 2 ≠ cap := by
  constructor
  · intro h before piece after heq hlen
    have := h before piece after heq
    omega
  · intro h before piece after heq hroom
    have hle := length_le_of_mem_pieces piece (by rw [heq]; simp)
    have := h before piece after heq
    omega

/-- The characters of an input up to the first that is malformed, and whether there is none; what is
above 16 bits is replaced. -/
def charsOf : ℕ → List UInt8 → List ℕ × Bool
  | 0, _ => ([], false)
  | _ + 1, [] => ([], true)
  | fuel + 1, c :: u8 =>
    match readChar c u8 with
    | none => ([], false)
    | some (ch, u8) =>
      ((if ch / 0x10000 ≠ 0 then 0xFFFE else ch) :: (charsOf fuel u8).1, (charsOf fuel u8).2)

/-- What is written for each character, and at the end. -/
def parts : Mode → List ℕ → Bool → List (List UInt8)
  | m, [], true => [m.close ++ [0]]
  | _, [], false => []
  | m, u :: us, full => (m.char u).1 :: parts (m.char u).2 us full

lemma pieces_encode {m : Mode} (hm : m.Ok) (fuel : ℕ) (u8 : List UInt8) :
    pieces encodeTurn 0 fuel ⟨u8, m.encoder⟩ = parts m (charsOf fuel u8).1 (charsOf fuel u8).2 := by
  induction fuel generalizing m u8 with
  | zero => rfl
  | succ fuel ih =>
    cases u8 with
    | nil =>
      rw [pieces, charsOf, parts]
      cases m with
      | plain | whole => rfl
      | four r | two r => rfl
    | cons c u8 =>
      rw [pieces, charsOf, encodeTurn]
      dsimp only
      cases readChar c u8 with
      | none => rfl
      | some p =>
        obtain ⟨ch, u8⟩ := p
        have hclamp : encodeChar m.encoder ch =
            encodeChar m.encoder (if ch / 0x10000 ≠ 0 then 0xFFFE else ch) := by
          split
          · have hbig : ch < 0x20 ∨ 0x7F ≤ ch := by omega
            simp [encodeChar, hbig, ‹ch / 0x10000 ≠ 0›]
          · rfl
        dsimp only
        rw [hclamp, encodeChar_eq hm (by split <;> omega), parts]
        dsimp only
        rw [ih (Mode.char_ok _)]

lemma encode_text {us : List ℕ} (hus : ∀ u ∈ us, u < 0x10000) {cap : ℕ}
    (hcap : (text .plain us).length + 1 < cap) :
    utf8ToUtf7 (us.flatMap utf8Char) cap = some (some (text .plain us)) := by
  refine run_of_outcome (outcome_encode (m := .plain) trivial hus ?_) ?_
  · exact Nat.lt_succ_of_le (length_le_flatMap us)
  · rwa [List.length_nil, Nat.zero_add]

lemma exists_text {x s : List UInt8} {cap : ℕ} (h : utf7ToUtf8 x cap = some (some s)) :
    ∃ us : List ℕ, (∀ u ∈ us, u < 0x10000) ∧ x = text .plain us ∧ s = us.flatMap utf8Char := by
  obtain ⟨t, ht, rfl⟩ := outcome_of_run h
  exact (parsed x).plain ht

/-- **Room for whole characters**: the two are inverse to each other wherever there is room, and each
stays inside of its output exactly when what it begins there has room: the decoder when no character of
three bytes begins where two bytes are left, the encoder when what it writes at once for a character or
at the end does. -/
theorem utf7_inverse (us : List ℕ) (x s : List UInt8) (cap cap' : ℕ) :
    ((∀ u ∈ us, u < 0x10000) → ∃ t, ∀ n n', t.length + 1 < n → (us.flatMap utf8Char).length + 1 < n' →
      utf8ToUtf7 (us.flatMap utf8Char) n = some (some t) ∧
        utf7ToUtf8 t n' = some (some (us.flatMap utf8Char))) ∧
    (utf7ToUtf8 x cap = some (some s) → x.length + 1 < cap' → utf8ToUtf7 s cap' = some (some x)) ∧
    ((utf7ToUtf8 x cap).isSome ↔
      ∀ before piece after, pieces decodeTurn 0 (x.length + 1) ⟨x, none⟩ = before ++ piece :: after →
        piece.length = 3 → before.flatten.length + 2 ≠ cap) ∧
    ((utf8ToUtf7 s cap').isSome ↔
      Inside cap' 0 (parts .plain (charsOf (s.length + 1) s).1 (charsOf (s.length + 1) s).2)) := by
  refine ⟨fun hus => ⟨text .plain us, fun n n' hn hn' => ⟨encode_text hus hn, ?_⟩⟩, ?_, ?_, ?_⟩
  · have htext := utf8Of_text (s := .plain) (fun w hw => absurd hw List.not_mem_nil) hus
    exact run_of_outcome htext (by rwa [List.length_nil, Nat.zero_add])
  · intro h hcap'
    obtain ⟨us, hus, rfl, rfl⟩ := exists_text h
    exact encode_text hus hcap'
  · exact run_isSome.trans inside_decode
  · rw [← pieces_encode (m := .plain) trivial]
    exact run_isSome

/-- A character of three bytes in an output of five bytes that holds three, and one character between
ampersands in an output of five. -/
theorem utf7_stray :
    utf7ToUtf8 [0x26, 0x55, 0x2C, 0x42, 0x54, 0x46, 0x77, 0x2D] 5 = none ∧
      utf8ToUtf7 [0xC3, 0xA9] 5 = none := by
  decide +kernel

end SteepSystem.Texts.Utf7
