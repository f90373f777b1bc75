import Mathlib.Tactic

/-!
Fixed-width byte strings: the digits of a number in base 256, lowest first or highest
first, and the numbers they spell.
-/

namespace SteepSystem.Lib.Bytes

/-- The `n` lowest base-256 digits of `v`, lowest first. -/
def le : ℕ → ℕ → List UInt8
  | 0, _ => []
  | n + 1, v => UInt8.ofNat v :: le n (v / 256)

/-- The number a digit string spells, lowest digit first. -/
def ofLE : List UInt8 → ℕ
  | [] => 0
  | b :: bs => b.toNat + 256 * ofLE bs

/-- The same digits, highest first. -/
def be (n v : ℕ) : List UInt8 := (le n v).reverse

def ofBE (bs : List UInt8) : ℕ := ofLE bs.reverse

@[simp] lemma length_le (n v : ℕ) : (le n v).length = n := by
  induction n generalizing v <;> simp [le, *]

@[simp] lemma length_be (n v : ℕ) : (be n v).length = n := by simp [be]

lemma ofLE_lt (bs : List UInt8) : ofLE bs < 256 ^ bs.length := by
  induction bs with
  | nil => simp [ofLE]
  | cons b bs ih =>
    have hb := b.toNat_lt
    rw [ofLE, List.length_cons, pow_succ]
    omega

lemma ofBE_lt (bs : List UInt8) : ofBE bs < 256 ^ bs.length := by
  simpa [ofBE] using ofLE_lt bs.reverse

lemma ofLE_le (n v : ℕ) : ofLE (le n v) = v % 256 ^ n := by
  induction n generalizing v with
  | zero => simp [le, ofLE, Nat.mod_one]
  | succ n ih =>
    rw [le, ofLE, ih, pow_succ', Nat.mod_mul]
    simp

lemma le_ofLE (bs : List UInt8) : le bs.length (ofLE bs) = bs := by
  induction bs with
  | nil => rfl
  | cons b bs ih =>
    have hb := b.toNat_lt
    have hd : (b.toNat + 256 * ofLE bs) / 256 = ofLE bs := by omega
    have hm : UInt8.ofNat (b.toNat + 256 * ofLE bs) = b := by
      apply UInt8.toNat_inj.mp
      simp only [UInt8.toNat_ofNat']
      omega
    rw [ofLE, List.length_cons, le, hd, ih, hm]

lemma ofBE_be (n v : ℕ) : ofBE (be n v) = v % 256 ^ n := by simp [ofBE, be, ofLE_le]

lemma ofBE_be_of_lt {n v : ℕ} (h : v < 256 ^ n) : ofBE (be n v) = v := by
  rw [ofBE_be, Nat.mod_eq_of_lt h]

lemma ofLE_le_of_lt {n v : ℕ} (h : v < 256 ^ n) : ofLE (le n v) = v := by
  rw [ofLE_le, Nat.mod_eq_of_lt h]

lemma be_ofBE (bs : List UInt8) : be bs.length (ofBE bs) = bs := by
  have h := le_ofLE bs.reverse
  rw [List.length_reverse] at h
  rw [be, ofBE, h, List.reverse_reverse]

lemma ofLE_append (bs cs : List UInt8) :
    ofLE (bs ++ cs) = ofLE bs + 256 ^ bs.length * ofLE cs := by
  induction bs with
  | nil => simp [ofLE]
  | cons b bs ih =>
    rw [List.cons_append, ofLE, ofLE, ih, List.length_cons, pow_succ]
    ring

lemma ofBE_cons (b : UInt8) (bs : List UInt8) :
    ofBE (b :: bs) = b.toNat * 256 ^ bs.length + ofBE bs := by
  simp [ofBE, ofLE_append, ofLE]
  ring

lemma ofBE_concat (bs : List UInt8) (b : UInt8) : ofBE (bs ++ [b]) = ofBE bs * 256 + b.toNat := by
  simp [ofBE, ofLE]
  ring

lemma ofBE_inj {bs cs : List UInt8} (hl : bs.length = cs.length) (h : ofBE bs = ofBE cs) :
    bs = cs := by
  rw [← be_ofBE bs, ← be_ofBE cs, hl, h]

/-- A digit string of the same length spells less when it is less at the first difference. -/
lemma ofBE_cons_lt_iff {b c : UInt8} {bs cs : List UInt8} (hl : bs.length = cs.length) :
    ofBE (b :: bs) < ofBE (c :: cs) ↔ b < c ∨ b = c ∧ ofBE bs < ofBE cs := by
  have hb := ofBE_lt bs
  have hc := ofBE_lt cs
  rw [ofBE_cons, ofBE_cons, hl, UInt8.lt_iff_toNat_lt, ← UInt8.toNat_inj]
  rw [hl] at hb
  rcases Nat.lt_trichotomy b.toNat c.toNat with h | h | h
  · have : (b.toNat + 1) * 256 ^ cs.length ≤ c.toNat * 256 ^ cs.length :=
      Nat.mul_le_mul_right _ h
    exact ⟨fun _ => .inl h, fun _ => by linarith⟩
  · rw [h]
    omega
  · have : (c.toNat + 1) * 256 ^ cs.length ≤ b.toNat * 256 ^ cs.length :=
      Nat.mul_le_mul_right _ h
    constructor
    · intro hlt
      exfalso
      linarith
    · omega

lemma le_drop (n k v : ℕ) : (le (k + n) v).drop k = le n (v / 256 ^ k) := by
  induction k generalizing v with
  | zero => simp
  | succ k ih =>
    rw [show k + 1 + n = (k + n) + 1 by omega, le, List.drop_succ_cons, ih, pow_succ',
      Nat.div_div_eq_div_mul]

/-- The highest digits are the digits of the quotient. -/
lemma be_take (n k v : ℕ) : (be (k + n) v).take n = be n (v / 256 ^ k) := by
  rw [be, List.take_reverse, length_le, show k + n - n = k by omega, le_drop]
  rfl

lemma be_inj {n v w : ℕ} (hv : v < 256 ^ n) (hw : w < 256 ^ n) (h : be n v = be n w) :
    v = w := by
  rw [← ofBE_be_of_lt hv, h, ofBE_be_of_lt hw]

lemma div_lt_pow {n k v : ℕ} (hv : v < 256 ^ (k + n)) : v / 256 ^ k < 256 ^ n := by
  rw [Nat.div_lt_iff_lt_mul (by positivity), ← pow_add, Nat.add_comm]
  exact hv

/-- Two numbers agree on their `n` highest digits when their quotients do. -/
lemma be_take_eq_iff {n k v w : ℕ} (hv : v < 256 ^ (k + n)) (hw : w < 256 ^ (k + n)) :
    (be (k + n) v).take n = (be (k + n) w).take n ↔ v / 256 ^ k = w / 256 ^ k := by
  rw [be_take, be_take]
  exact ⟨be_inj (div_lt_pow hv) (div_lt_pow hw), fun h => by rw [h]⟩

/-- Highest digits shared by both ends of an interval are shared by everything between. -/
lemma be_take_between {n k u v w : ℕ} (huw : u ≤ w) (hwv : w ≤ v) (hv : v < 256 ^ (k + n))
    (h : (be (k + n) u).take n = (be (k + n) v).take n) :
    (be (k + n) w).take n = (be (k + n) u).take n := by
  have hu : u < 256 ^ (k + n) := by omega
  rw [be_take_eq_iff hu hv] at h
  rw [be_take_eq_iff (by omega) hu]
  have h1 := Nat.div_le_div_right (c := 256 ^ k) huw
  have h2 := Nat.div_le_div_right (c := 256 ^ k) hwv
  omega

end SteepSystem.Lib.Bytes
