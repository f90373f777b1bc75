import SteepSystem.Lib.Bytes

/-!
Entry identifiers: a 16-bit replica number below a 48-bit global counter whose six bytes
stand highest first (`LIBRARY/mapi_lib/rop_util.c`, the little-endian paths).
-/

namespace SteepSystem.RopUtil

open SteepSystem.Lib.Bytes

/-- The byte of a 64-bit value at address offset `i`. -/
def byteAt (v i : ℕ) : UInt8 := UInt8.ofNat (v / 256 ^ i)

def ropUtilGetReplid (eid : ℕ) : ℕ := eid % 65536

def ropUtilGetGcValue (eid : ℕ) : ℕ :=
  ofLE [byteAt eid 7, byteAt eid 6, byteAt eid 5, byteAt eid 4, byteAt eid 3, byteAt eid 2, 0, 0]

/-- The six counter bytes, `gc[0]` first. -/
def ropUtilValueToGc (value : ℕ) : List UInt8 :=
  [byteAt value 5, byteAt value 4, byteAt value 3, byteAt value 2, byteAt value 1, byteAt value 0]

def ropUtilGcToValue (gc : List UInt8) : ℕ := ofLE (gc.reverse ++ [0, 0])

def ropUtilMakeEid (replid : ℕ) (gc : List UInt8) : ℕ := ofLE (0 :: 0 :: gc) ||| replid

def ropUtilMakeEidEx (replid value : ℕ) : ℕ := ropUtilMakeEid replid (ropUtilValueToGc value)

lemma ropUtilValueToGc_eq (value : ℕ) : ropUtilValueToGc value = be 6 value := by
  simp [ropUtilValueToGc, be, le, byteAt, Nat.div_div_eq_div_mul]

@[simp] lemma length_ropUtilValueToGc (value : ℕ) : (ropUtilValueToGc value).length = 6 := rfl

lemma ofLE_append_zeros (l : List UInt8) : ofLE (l ++ [0, 0]) = ofLE l := by
  induction l with
  | nil => rfl
  | cons b l ih => simp [ofLE, ih]

lemma ropUtilGcToValue_eq (gc : List UInt8) : ropUtilGcToValue gc = ofBE gc := by
  rw [ropUtilGcToValue, ofLE_append_zeros, ofBE]

lemma ropUtilGcToValue_valueToGc {value : ℕ} (h : value < 2 ^ 48) :
    ropUtilGcToValue (ropUtilValueToGc value) = value := by
  rw [ropUtilValueToGc_eq, ropUtilGcToValue_eq, ofBE_be_of_lt (by norm_num; omega)]

/-- Leading counter bytes shared by both ends of an interval are shared by all between. -/
lemma valueToGc_take_between {k u v w : ℕ} (hk : k ≤ 6) (huw : u ≤ w) (hwv : w ≤ v)
    (hv : v < 2 ^ 48) (h : (ropUtilValueToGc u).take k = (ropUtilValueToGc v).take k) :
    (ropUtilValueToGc w).take k = (ropUtilValueToGc u).take k := by
  have h6 : 6 = (6 - k) + k := by omega
  rw [ropUtilValueToGc_eq, ropUtilValueToGc_eq, h6] at h ⊢
  exact be_take_between huw hwv (by rw [← h6]; norm_num; omega) h

lemma ropUtilGetReplid_lt (eid : ℕ) : ropUtilGetReplid eid < 65536 :=
  Nat.mod_lt _ (by norm_num)

/-- The counter is spelled by the six bytes above the replica number, highest first. -/
lemma ropUtilGetGcValue_eq (eid : ℕ) : ropUtilGetGcValue eid = ofBE (le 6 (eid / 65536)) := by
  have h : le 6 (eid / 65536) = [byteAt eid 2, byteAt eid 3, byteAt eid 4, byteAt eid 5,
      byteAt eid 6, byteAt eid 7] := by
    simp [le, byteAt, Nat.div_div_eq_div_mul]
  rw [ropUtilGetGcValue, ofBE, ← ofLE_append_zeros, h]
  rfl

lemma ropUtilMakeEidEx_eq {replid : ℕ} (hr : replid < 65536) (value : ℕ) :
    ropUtilMakeEidEx replid value = replid + 65536 * ofLE (ropUtilValueToGc value) := by
  have h0 : ofLE (0 :: 0 :: ropUtilValueToGc value) = 2 ^ 16 * ofLE (ropUtilValueToGc value) := by
    simp only [ofLE, UInt8.toNat_zero]
    ring
  rw [ropUtilMakeEidEx, ropUtilMakeEid, h0, ← Nat.two_pow_add_eq_or_of_lt hr]
  ring

@[simp] lemma ropUtilGetReplid_makeEidEx {replid : ℕ} (hr : replid < 65536) (value : ℕ) :
    ropUtilGetReplid (ropUtilMakeEidEx replid value) = replid := by
  rw [ropUtilMakeEidEx_eq hr, ropUtilGetReplid]
  omega

lemma ropUtilGetGcValue_makeEidEx_mod {replid : ℕ} (hr : replid < 65536) (value : ℕ) :
    ropUtilGetGcValue (ropUtilMakeEidEx replid value) = value % 2 ^ 48 := by
  have hd : (replid + 65536 * ofLE (ropUtilValueToGc value)) / 65536 =
      ofLE (ropUtilValueToGc value) := by omega
  have hl := le_ofLE (ropUtilValueToGc value)
  rw [length_ropUtilValueToGc] at hl
  rw [ropUtilMakeEidEx_eq hr, ropUtilGetGcValue_eq, hd, hl, ropUtilValueToGc_eq, ofBE_be]
  norm_num

lemma ropUtilGetGcValue_makeEidEx {replid value : ℕ} (hr : replid < 65536)
    (hv : value < 2 ^ 48) : ropUtilGetGcValue (ropUtilMakeEidEx replid value) = value := by
  rw [ropUtilGetGcValue_makeEidEx_mod hr, Nat.mod_eq_of_lt hv]

lemma ropUtilMakeEidEx_inj {r s v w : ℕ} (hr : r < 65536) (hs : s < 65536) (hv : v < 2 ^ 48)
    (hw : w < 2 ^ 48) (h : ropUtilMakeEidEx r v = ropUtilMakeEidEx s w) : r = s ∧ v = w := by
  have h1 := congrArg ropUtilGetReplid h
  have h2 := congrArg ropUtilGetGcValue h
  rw [ropUtilGetReplid_makeEidEx hr, ropUtilGetReplid_makeEidEx hs] at h1
  rw [ropUtilGetGcValue_makeEidEx hr hv, ropUtilGetGcValue_makeEidEx hs hw] at h2
  exact ⟨h1, h2⟩

end SteepSystem.RopUtil
