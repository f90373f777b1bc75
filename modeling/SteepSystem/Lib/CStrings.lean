import Mathlib.Tactic
import Mathlib.Data.List.TakeWhile

/-!
Strings of C: bytes up to the first NUL, comparisons that ignore the case of ASCII letters, and
decimal numbers.
-/

namespace SteepSystem.Lib.CStrings

/-- The bytes of an ASCII literal. -/
def bytes (s : String) : List UInt8 := s.toList.map fun c => UInt8.ofNat c.toNat

lemma forall_uint8 {p : UInt8 → Prop} (h : ∀ n : Fin 256, p (UInt8.ofFin n)) (b : UInt8) : p b :=
  h b.toFin

lemma or_lt_sixtyFour {x y : UInt8} (hx : x < 64) (hy : y < 64) : x ||| y < 64 := by
  rw [UInt8.lt_iff_toNat_lt] at hx hy ⊢
  rw [UInt8.toNat_or]
  exact Nat.or_lt_two_pow (n := 6) hx hy

/-- What a string function sees of a buffer. -/
def cstr (buffer : List UInt8) : List UInt8 := buffer.takeWhile (· != 0)

def tolower (c : UInt8) : UInt8 := if 65 ≤ c && c ≤ 90 then c + 32 else c

/-- `strcasecmp` finds them equal. -/
def caseEq (s t : List UInt8) : Bool := s.map tolower == t.map tolower

/-- `strncasecmp` finds the string to begin with `t`, whose length is the bound. -/
def casePrefix (t s : List UInt8) : Bool := caseEq (s.take t.length) t

lemma casePrefix_append (word rest : List UInt8) : casePrefix word (word ++ rest) = true := by
  rw [casePrefix, List.take_left, caseEq, beq_self_eq_true]

lemma cstr_append_nul {s : List UInt8} (h : 0 ∉ s) (behind : List UInt8) :
    cstr (s ++ 0 :: behind) = s := by
  have hstop : (0 :: behind).takeWhile (· != 0) = [] := rfl
  rw [cstr, List.takeWhile_append_of_pos, hstop, List.append_nil]
  intro c hc
  have hne : c ≠ 0 := fun h' => h (h' ▸ hc)
  simp [hne]

/-! ### Numbers -/

def isspace (c : UInt8) : Bool := c == 32 || (9 ≤ c && c ≤ 13)

def isdigit (c : UInt8) : Bool := 48 ≤ c && c ≤ 57

/-- The value of a string of digits. -/
def ofDigits (s : List UInt8) : ℕ := s.foldl (fun v c => 10 * v + (c.toNat - 48)) 0

/-- `strtol` to base ten, which stays within a `long`. -/
def strtol (s : List UInt8) : ℤ :=
  match s.dropWhile isspace with
  | 45 :: s => max (-2 ^ 63) (-ofDigits (s.takeWhile isdigit))
  | 43 :: s => min (2 ^ 63 - 1) (ofDigits (s.takeWhile isdigit))
  | s => min (2 ^ 63 - 1) (ofDigits (s.takeWhile isdigit))

def atol (s : List UInt8) : ℤ := strtol s

/-- `atoi` cuts what `strtol` gives to an `int`. -/
def atoi (s : List UInt8) : ℤ := (strtol s).bmod (2 ^ 32)

/-- `%d` and `%ld` of a number that is not negative. -/
def decimal (n : ℕ) : List UInt8 := (Nat.toDigits 10 n).map fun c => UInt8.ofNat c.toNat

def formatInt (z : ℤ) : List UInt8 := if z < 0 then 45 :: decimal z.natAbs else decimal z.natAbs

lemma isdigit_ofNat {c : Char} (h : c.isDigit) :
    isdigit (UInt8.ofNat c.toNat) ∧ (UInt8.ofNat c.toNat).toNat = c.toNat := by
  have hc : 48 ≤ c.toNat ∧ c.toNat ≤ 57 := Char.isDigit_iff_toNat.mp h
  have hn : (UInt8.ofNat c.toNat).toNat = c.toNat := by
    rw [UInt8.toNat_ofNat']
    omega
  refine ⟨?_, hn⟩
  simp only [isdigit, Bool.and_eq_true, decide_eq_true_eq, UInt8.le_iff_toNat_le, hn]
  exact hc

lemma isdigit_of_mem_decimal {n : ℕ} {c : UInt8} (h : c ∈ decimal n) : isdigit c := by
  obtain ⟨d, hd, rfl⟩ := List.mem_map.mp h
  exact (isdigit_ofNat (Nat.isDigit_of_mem_toDigits (by decide) (by decide) hd)).1

lemma decimal_ne_nil (n : ℕ) : decimal n ≠ [] := by simp [decimal]

lemma ofDigits_decimal (n : ℕ) : ofDigits (decimal n) = n := by
  have hfold : ∀ (l : List Char) (v : ℕ), (∀ c ∈ l, c.isDigit) →
      (l.map fun c => UInt8.ofNat c.toNat).foldl (fun v c => 10 * v + (c.toNat - 48)) v =
        Nat.ofDigitChars 10 l v := by
    intro l
    induction l with
    | nil => intro v _; simp
    | cons c l ih =>
      intro v hl
      rw [List.map_cons, List.foldl_cons, (isdigit_ofNat (hl c List.mem_cons_self)).2,
        ih _ fun d hd => hl d (List.mem_cons_of_mem _ hd), Nat.ofDigitChars_cons]
      rfl
  rw [ofDigits, decimal, hfold _ _ fun c hc => Nat.isDigit_of_mem_toDigits (by decide) (by decide) hc]
  exact Nat.ofDigitChars_ten_toDigits

lemma strtol_digits {ds : List UInt8} (h : ∀ c ∈ ds, isdigit c) (hlt : ofDigits ds < 2 ^ 63) :
    strtol ds = ofDigits ds := by
  have htake : ds.takeWhile isdigit = ds := List.takeWhile_eq_self_iff.mpr h
  cases ds with
  | nil => rfl
  | cons c l =>
    have hc : isdigit c := h c List.mem_cons_self
    have hbound : 48 ≤ c.toNat ∧ c.toNat ≤ 57 := by
      simpa [isdigit, UInt8.le_iff_toNat_le] using hc
    have hspace : isspace c = false := by
      simp only [isspace, Bool.or_eq_false_iff, beq_eq_false_iff_ne, Bool.and_eq_false_iff,
        decide_eq_false_iff_not, UInt8.le_iff_toNat_le]
      refine ⟨fun hc => ?_, Or.inr ?_⟩
      · rw [hc] at hbound
        exact absurd hbound.1 (by decide)
      · have : (13 : UInt8).toNat = 13 := rfl
        omega
    unfold strtol
    rw [List.dropWhile_cons_of_neg (by simp [hspace])]
    split
    · rename_i heq
      rw [(List.cons.inj heq).1] at hbound
      exact absurd hbound.1 (by decide)
    · rename_i heq
      rw [(List.cons.inj heq).1] at hbound
      exact absurd hbound.1 (by decide)
    · rw [htake]
      omega

lemma strtol_decimal {n : ℕ} (h : n < 2 ^ 63) : strtol (decimal n) = n := by
  have hvalue := ofDigits_decimal n
  rw [strtol_digits (fun c => isdigit_of_mem_decimal) (by omega), hvalue]

lemma atoi_formatInt {z : ℤ} (h0 : 0 ≤ z) (h : z < 2 ^ 31) : atoi (formatInt z) = z := by
  rw [formatInt, if_neg (by omega), atoi, strtol_decimal (by omega), Int.natAbs_of_nonneg h0]
  exact Int.bmod_eq_of_le (by omega) (by omega)

lemma atol_formatInt {z : ℤ} (h0 : 0 ≤ z) (h : z < 2 ^ 63) : atol (formatInt z) = z := by
  rw [formatInt, if_neg (by omega), atol, strtol_decimal (by omega), Int.natAbs_of_nonneg h0]

lemma formatInt_digits {z : ℤ} (h0 : 0 ≤ z) :
    formatInt z ≠ [] ∧ ∀ c ∈ formatInt z, isdigit c := by
  rw [formatInt, if_neg (by omega)]
  exact ⟨decimal_ne_nil _, fun c => isdigit_of_mem_decimal⟩

end SteepSystem.Lib.CStrings
