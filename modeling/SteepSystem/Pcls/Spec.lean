import SteepSystem.Pcls.Model
import SteepSystem.Lib.VersionVector

/-!
A change list stands for a version vector: for each GUID the latest local id. With local ids of
one size for each GUID, the calls compute insertion, join and comparison of such vectors.
-/

namespace SteepSystem.Pcls.Spec

open SteepSystem.Lib.Bytes SteepSystem.Lib.VersionVector SteepSystem.Pcls.Model

/-- GUIDs in the order of `memcmp`, which is the one of the numbers their bytes spell. -/
instance : LinearOrder Guid :=
  LinearOrder.lift' (fun g => ofBE g.bytes) fun g h hb =>
    Guid.ext (ofBE_inj (g.length_eq.trans h.length_eq.symm) hb)

lemma Guid.lt_iff (g h : Guid) : g < h ↔ ofBE g.bytes < ofBE h.bytes := Iff.rfl

lemma memcmp_spec {as bs : List UInt8} (hl : as.length = bs.length) :
    (memcmp as bs < 0 ↔ ofBE as < ofBE bs) ∧ (memcmp as bs = 0 ↔ as = bs) := by
  induction as generalizing bs with
  | nil =>
    obtain rfl : bs = [] := List.length_eq_zero_iff.1 hl.symm
    simp [memcmp]
  | cons a as ih =>
    rcases bs with _ | ⟨b, bs⟩
    · simp at hl
    · have hl' : as.length = bs.length := by simpa using hl
      obtain ⟨ih1, ih2⟩ := ih hl'
      rw [memcmp, ofBE_cons_lt_iff hl', List.cons.injEq]
      split_ifs with hab
      · subst hab
        exact ⟨by simp [ih1], by simp [ih2]⟩
      · have hne : a.toNat ≠ b.toNat := fun h => hab (UInt8.toNat_inj.1 h)
        rw [UInt8.lt_iff_toNat_lt]
        exact ⟨by simp only [hab, false_and, or_false]; omega,
          by simp only [hab, false_and, iff_false]; omega⟩

lemma memcmp_lt (g h : Guid) : memcmp g.bytes h.bytes < 0 ↔ g < h :=
  (memcmp_spec (g.length_eq.trans h.length_eq.symm)).1

lemma memcmp_eq (g h : Guid) : memcmp g.bytes h.bytes = 0 ↔ g = h := by
  rw [(memcmp_spec (g.length_eq.trans h.length_eq.symm)).2, Guid.ext_iff]

/-- The shifted bytes that the loop of `pcl_convert_local_id` has gathered after `m` turns. -/
lemma gather_eq (bs : List UInt8) {m : ℕ} (hm : m ≤ bs.length) :
    (List.range m).foldl
      (fun v i => v ||| (bs.getD i 0).toNat <<< ((bs.length - 1 - i) * 8)) 0 =
      ofBE (bs.take m) * 256 ^ (bs.length - m) := by
  induction m with
  | zero => simp [ofBE, ofLE]
  | succ m ih =>
    have hlt : m < bs.length := hm
    obtain ⟨k, hk⟩ : ∃ k, bs.length - m = k + 1 := ⟨bs.length - m - 1, by omega⟩
    have hk1 : bs.length - 1 - m = k := by omega
    have hk2 : bs.length - (m + 1) = k := by omega
    have hb := (bs[m]).toNat_lt
    have hpow : (256 : ℕ) ^ (k + 1) = 2 ^ (8 * (k + 1)) := by rw [pow_mul]; norm_num
    have hget : bs.getD m 0 = bs[m] := by simp [List.getD, hlt]
    have hshift : (bs[m]).toNat <<< (k * 8) = (bs[m]).toNat * 256 ^ k := by
      rw [Nat.shiftLeft_eq, mul_comm k 8, pow_mul]
      norm_num
    have hsmall : (bs[m]).toNat * 256 ^ k < 2 ^ (8 * (k + 1)) := by
      rw [← hpow, pow_succ']
      exact Nat.mul_lt_mul_of_pos_right hb (by positivity)
    rw [List.range_succ, List.foldl_append, ih hlt.le, List.foldl_cons, List.foldl_nil, hk, hk1,
      hk2, hget, hshift, mul_comm (ofBE _) (256 ^ (k + 1)), hpow,
      ← Nat.two_pow_add_eq_or_of_lt hsmall, List.take_succ_eq_append_getElem hlt, ofBE_concat,
      ← hpow]
    ring

lemma pclConvertLocalId_eq (pxid : SizedXid) : pclConvertLocalId pxid = ofBE pxid.localId := by
  have hsize : pxid.size - 16 = pxid.localId.length := by rw [SizedXid.size]; omega
  have h := gather_eq pxid.localId le_rfl
  rw [pclConvertLocalId, hsize, h]
  simp

/-- The local id of an XID has the size set for its GUID. -/
def Sized (size : Guid → ℕ) (pxid : SizedXid) : Prop := pxid.localId.length = size pxid.guid

def entry (pxid : SizedXid) : Guid × ℕ := (pxid.guid, ofBE pxid.localId)

/-- The map a list stands for: the latest local id of each GUID, as the number it spells. -/
def latestIds (ppcl : List SizedXid) : Guid → WithBot ℕ := latest (ppcl.map entry)

section Calls

variable {size : Guid → ℕ} {ppcl ppcl1 ppcl2 : PclList} {pxid : SizedXid}

lemma Sized.size_eq {x y : SizedXid} (hx : Sized size x) (hy : Sized size y)
    (h : x.guid = y.guid) : x.size = y.size := by
  rw [SizedXid.size, SizedXid.size, hx, hy, h]

/-- **Append.** The call succeeds and inserts the XID into the version vector. -/
lemma pclAppend_spec (h : ∀ x ∈ ppcl, Sized size x) (hx : Sized size pxid) :
    (pclAppend ppcl pxid).1 = true ∧
      (pclAppend ppcl pxid).2.map entry =
        insertMax pxid.guid (ofBE pxid.localId) (ppcl.map entry) ∧
      ∀ x ∈ (pclAppend ppcl pxid).2, Sized size x := by
  induction ppcl with
  | nil => exact ⟨rfl, rfl, by simpa [pclAppend] using hx⟩
  | cons x ppcl ih =>
    obtain ⟨ih1, ih2, ih3⟩ := ih fun y hy => h y (by simp [hy])
    have hhead := h x (by simp)
    have hrest : ∀ y ∈ ppcl, Sized size y := fun y hy => h y (by simp [hy])
    simp only [pclAppend, memcmp_lt, memcmp_eq, pclConvertLocalId_eq, List.map_cons, insertMax]
    rcases lt_trichotomy x.guid pxid.guid with hlt | heq | hgt
    · rw [if_pos hlt, if_pos (show (entry x).1 < pxid.guid from hlt)]
      exact ⟨ih1, by rw [List.map_cons, ih2], List.forall_mem_cons.2 ⟨hhead, ih3⟩⟩
    · have hns : ¬ pxid.size ≠ x.size := not_not.2 (hx.size_eq hhead heq.symm)
      rw [if_neg heq.not_lt, if_pos heq, if_neg hns, if_neg (show ¬ (entry x).1 < _ from heq.not_lt),
        if_pos (show (entry x).1 = _ from heq)]
      split_ifs with hv
      · refine ⟨rfl, ?_, List.forall_mem_cons.2 ⟨?_, hrest⟩⟩
        · simp [entry, max_eq_right hv.le]
        · rw [Sized, heq]
          exact hx
      · refine ⟨rfl, ?_, List.forall_mem_cons.2 ⟨hhead, hrest⟩⟩
        simp [entry, max_eq_left (not_lt.1 hv)]
    · rw [if_neg hgt.not_gt, if_neg hgt.ne', if_neg (show ¬ (entry x).1 < _ from hgt.not_gt),
        if_neg (show (entry x).1 ≠ _ from hgt.ne')]
      exact ⟨rfl, rfl, List.forall_mem_cons.2 ⟨hx, h⟩⟩

/-- **Merge.** The call succeeds and inserts every XID of the other list. -/
lemma pclMerge_spec (h1 : ∀ x ∈ ppcl1, Sized size x) (h2 : ∀ x ∈ ppcl2, Sized size x) :
    (pclMerge ppcl1 ppcl2).1 = true ∧
      (pclMerge ppcl1 ppcl2).2.map entry = insertAll (ppcl1.map entry) (ppcl2.map entry) ∧
      ∀ x ∈ (pclMerge ppcl1 ppcl2).2, Sized size x := by
  induction ppcl2 generalizing ppcl1 with
  | nil => exact ⟨rfl, rfl, h1⟩
  | cons x ppcl2 ih =>
    obtain ⟨hok, hmap, hsized⟩ := pclAppend_spec h1 (h2 x (by simp))
    rw [pclMerge]
    rcases ha : pclAppend ppcl1 x with ⟨ok, ppcl⟩
    simp only [ha] at hok hmap hsized
    subst hok
    obtain ⟨ih1, ih2, ih3⟩ := ih hsized fun y hy => h2 y (by simp [hy])
    exact ⟨ih1, by rw [ih2, hmap]; rfl, ih3⟩

/-- The XIDs that `pcl_deserialize` reads while every one is appended. -/
def pulledXids (pbin : List UInt8) : ℕ → ℕ → List SizedXid
  | 0, _ => []
  | fuel + 1, offset =>
    match pclPullSizedXid pbin offset with
    | none => []
    | some xid =>
      let offset := (offset + (xid.size + 1)) % 65536
      xid :: if pbin.length = offset then [] else pulledXids pbin fuel offset

lemma deserializeLoop_spec {pbin : List UInt8} {fuel offset : ℕ} {ok : Bool} {ppcl' : PclList}
    (h : ∀ x ∈ ppcl, Sized size x) (hx : ∀ x ∈ pulledXids pbin fuel offset, Sized size x)
    (hd : deserializeLoop pbin fuel offset ppcl = some (ok, ppcl')) :
    ppcl'.map entry = insertAll (ppcl.map entry) ((pulledXids pbin fuel offset).map entry) ∧
      ∀ x ∈ ppcl', Sized size x := by
  induction fuel generalizing offset ppcl with
  | zero => simp [deserializeLoop] at hd
  | succ fuel ih =>
    rw [deserializeLoop] at hd
    rw [pulledXids] at hx ⊢
    rcases hp : pclPullSizedXid pbin offset with _ | xid
    · simp only [hp] at hd
      cases hd
      exact ⟨rfl, h⟩
    · simp only [hp] at hd hx ⊢
      obtain ⟨hok, hmap, hsized⟩ := pclAppend_spec h (hx xid (by simp))
      rcases ha : pclAppend ppcl xid with ⟨ok1, ppcl1⟩
      simp only [ha] at hok hmap hsized hd
      subst hok
      simp only at hd
      split_ifs at hd hx ⊢ with hend
      · cases hd
        exact ⟨hmap, hsized⟩
      · obtain ⟨ih1, ih2⟩ := ih hsized (fun y hy => hx y (by simp [hy])) hd
        exact ⟨by rw [ih1, hmap]; rfl, ih2⟩

/-- A pulled XID lies within the binary, and its size is the byte before it. -/
lemma pclPullSizedXid_some {pbin : List UInt8} {offset : ℕ}
    (h : pclPullSizedXid pbin offset = some pxid) :
    17 ≤ pxid.size ∧ pxid.size ≤ 24 ∧ offset + 1 + pxid.size ≤ pbin.length := by
  rw [pclPullSizedXid] at h
  split_ifs at h with h1
  dsimp only at h
  split_ifs at h with h2 h3
  cases h
  have hle : (offset + 1) % 65536 ≤ offset + 1 := Nat.mod_le _ _
  simp only [SizedXid.size, List.length_take, List.length_drop]
  omega

/-- A binary shorter than 2¹⁶ bytes is read to an end: no offset wraps round. -/
lemma pclDeserialize_isSome {pbin : List UInt8} (hp : pbin.length < 65536) (ppcl : PclList) :
    (pclDeserialize (pbin.length + 1) ppcl pbin).isSome := by
  suffices h : ∀ fuel offset ppcl, offset ≤ pbin.length → pbin.length < offset + fuel →
      (deserializeLoop pbin fuel offset ppcl).isSome from h _ 0 ppcl (by omega) (by omega)
  intro fuel
  induction fuel with
  | zero => intro offset _ h1 h2; omega
  | succ fuel ih =>
    intro offset ppcl h1 h2
    rw [deserializeLoop]
    rcases hx : pclPullSizedXid pbin offset with _ | xid
    · rfl
    · have hb := pclPullSizedXid_some hx
      dsimp only
      rcases pclAppend ppcl xid with ⟨_ | _, ppcl1⟩
      · rfl
      · dsimp only
        rw [Nat.mod_eq_of_lt (by omega)]
        split_ifs
        · rfl
        · exact ih _ _ (by omega) (by omega)

/-- **Inclusion.** The check compares an XID with the latest one of its GUID. -/
lemma pclCheckIncluded_spec (hs : Sorted (ppcl.map entry)) (h : ∀ x ∈ ppcl, Sized size x)
    (hx : Sized size pxid) :
    pclCheckIncluded ppcl pxid = true ↔
      WithBot.some (ofBE pxid.localId) ≤ latestIds ppcl pxid.guid := by
  induction ppcl with
  | nil => simp [pclCheckIncluded, latestIds]
  | cons x ppcl ih =>
    obtain ⟨hbelow, hs'⟩ := List.pairwise_cons.1 hs
    have ih := ih hs' fun y hy => h y (by simp [hy])
    have hhead := h x (by simp)
    -- beyond an entry for this GUID or a later one there is none
    have hnone : pxid.guid ≤ x.guid → latestIds ppcl pxid.guid = ⊥ := by
      intro hle
      refine latest_eq_bot fun e he => ?_
      exact (lt_of_le_of_lt hle (hbelow e he)).ne'
    simp only [pclCheckIncluded, memcmp_lt, gt_iff_lt, pclConvertLocalId_eq]
    rw [latestIds, List.map_cons, latest_cons]
    rcases lt_trichotomy x.guid pxid.guid with hlt | heq | hgt
    · rw [if_pos hlt, if_neg (show (entry x).1 ≠ _ from hlt.ne)]
      exact ih
    · have hz : memcmp x.guid.bytes pxid.guid.bytes = 0 := (memcmp_eq _ _).2 heq
      have hns : ¬ pxid.size ≠ x.size := not_not.2 (hx.size_eq hhead heq.symm)
      rw [if_neg heq.not_lt, if_neg hz.not_gt, if_neg hns,
        if_pos (show (entry x).1 = _ from heq)]
      have hbot := hnone heq.ge
      rw [latestIds] at hbot
      rw [hbot, sup_bot_eq]
      split_ifs with hv
      · exact iff_of_true rfl (WithBot.coe_le_coe.2 hv)
      · rw [ih, latestIds, hbot]
        exact iff_of_false (by simp) (WithBot.coe_le_coe.not.2 hv)
    · have hz : 0 < memcmp x.guid.bytes pxid.guid.bytes := by
        have h1 := (memcmp_lt x.guid pxid.guid).not.2 hgt.not_gt
        have h2 := (memcmp_eq x.guid pxid.guid).not.2 hgt.ne'
        omega
      rw [if_neg hgt.not_gt, if_pos hz, if_neg (show (entry x).1 ≠ _ from hgt.ne')]
      have hbot := hnone hgt.le
      rw [latestIds] at hbot
      simp [hbot]

lemma all_pclCheckIncluded (hs : Sorted (ppcl2.map entry)) (h1 : ∀ x ∈ ppcl1, Sized size x)
    (h2 : ∀ x ∈ ppcl2, Sized size x) :
    ppcl1.all (pclCheckIncluded ppcl2) = true ↔ latestIds ppcl1 ≤ latestIds ppcl2 := by
  rw [List.all_eq_true, latestIds, latestIds, latest_le_iff, List.forall_mem_map]
  exact forall₂_congr fun x hx => pclCheckIncluded_spec hs h2 (h1 x hx)

end Calls

end SteepSystem.Pcls.Spec
