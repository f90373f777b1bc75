import SteepSystem.Pcls.Spec

/-!
Change lists built by any sequence of the calls: their order, the latest local ids they hold,
and what merging and comparing them computes.
-/

namespace SteepSystem.Pcls.Run

open SteepSystem.Lib.VersionVector SteepSystem.Pcls.Model SteepSystem.Pcls.Spec

variable {size : Guid → ℕ}

/-- A list built by the calls, with the XIDs it was given. A binary may be read only in part. -/
inductive Built (size : Guid → ℕ) : PclList → List SizedXid → Prop
  | init : Built size [] []
  | append {ppcl : PclList} {seen : List SizedXid} {pxid : SizedXid} : Built size ppcl seen →
      Sized size pxid → Built size (pclAppend ppcl pxid).2 (seen ++ [pxid])
  | merge {ppcl1 ppcl2 : PclList} {seen1 seen2 : List SizedXid} : Built size ppcl1 seen1 →
      Built size ppcl2 seen2 → Built size (pclMerge ppcl1 ppcl2).2 (seen1 ++ seen2)
  | deserialize {ppcl ppcl' : PclList} {seen : List SizedXid} {pbin : List UInt8} {fuel : ℕ}
      {ok : Bool} : Built size ppcl seen → (∀ x ∈ pulledXids pbin fuel 0, Sized size x) →
      pclDeserialize fuel ppcl pbin = some (ok, ppcl') →
      Built size ppcl' (seen ++ pulledXids pbin fuel 0)

lemma Sorted.insertAll {l : List (Guid × ℕ)} (h : Sorted l) (es : List (Guid × ℕ)) :
    Sorted (insertAll l es) := by
  induction es generalizing l with
  | nil => exact h
  | cons e es ih => exact ih (h.insertMax e.1 e.2)

/-- What every call keeps: the order, the sizes, and the latest of all local ids seen. -/
structure Inv (size : Guid → ℕ) (ppcl : PclList) (seen : List SizedXid) : Prop where
  sorted : Sorted (ppcl.map entry)
  sized : ∀ x ∈ ppcl, Sized size x
  latest : latestIds ppcl = latestIds seen

lemma latestIds_append (l m : List SizedXid) :
    latestIds (l ++ m) = latestIds l ⊔ latestIds m := by
  rw [latestIds, List.map_append, latest_append]
  rfl

lemma Inv.of_insertAll {ppcl ppcl' : PclList} {seen more : List SizedXid}
    (h : Inv size ppcl seen) (hsized : ∀ x ∈ ppcl', Sized size x) {added : List SizedXid}
    (hadd : latestIds added = latestIds more)
    (hmap : ppcl'.map entry = insertAll (ppcl.map entry) (added.map entry)) :
    Inv size ppcl' (seen ++ more) where
  sorted := by
    rw [hmap]
    exact Sorted.insertAll h.sorted _
  sized := hsized
  latest := by
    rw [latestIds_append, ← h.latest, ← hadd, latestIds, hmap, latest_insertAll]
    rfl

lemma Built.inv {ppcl : PclList} {seen : List SizedXid} (h : Built size ppcl seen) :
    Inv size ppcl seen := by
  induction h with
  | init => exact ⟨List.Pairwise.nil, by simp, rfl⟩
  | append _ hx ih =>
    obtain ⟨-, hmap, hsized⟩ := pclAppend_spec ih.sized hx
    exact ih.of_insertAll hsized rfl hmap
  | merge _ _ ih1 ih2 =>
    obtain ⟨-, hmap, hsized⟩ := pclMerge_spec ih1.sized ih2.sized
    exact ih1.of_insertAll hsized ih2.latest hmap
  | deserialize _ hx hd ih =>
    obtain ⟨hmap, hsized⟩ := deserializeLoop_spec ih.sized hx hd
    exact ih.of_insertAll hsized rfl hmap

lemma latestIds_merge {ppcl1 ppcl2 : PclList} {seen1 seen2 : List SizedXid}
    (h1 : Built size ppcl1 seen1) (h2 : Built size ppcl2 seen2) :
    latestIds (pclMerge ppcl1 ppcl2).2 = latestIds ppcl1 ⊔ latestIds ppcl2 := by
  rw [(h1.merge h2).inv.latest, latestIds_append, h1.inv.latest, h2.inv.latest]

/-- Built lists that stand for the same map are the same list. -/
lemma Built.ext {ppcl1 ppcl2 : PclList} {seen1 seen2 : List SizedXid}
    (h1 : Built size ppcl1 seen1) (h2 : Built size ppcl2 seen2)
    (h : latestIds ppcl1 = latestIds ppcl2) : ppcl1 = ppcl2 := by
  have hmap := h1.inv.sorted.ext h2.inv.sorted h
  have h1s := h1.inv.sized
  have h2s := h2.inv.sized
  clear h h1 h2
  induction ppcl1 generalizing ppcl2 with
  | nil =>
    rw [List.map_nil] at hmap
    exact (List.map_eq_nil_iff.1 hmap.symm).symm
  | cons x xs ih =>
    rcases ppcl2 with _ | ⟨y, ys⟩
    · simp at hmap
    · rw [List.map_cons, List.map_cons, List.cons.injEq] at hmap
      obtain ⟨hg, hv⟩ := Prod.mk.inj hmap.1
      have hx := h1s x (by simp)
      have hy := h2s y (by simp)
      have hid : x.localId = y.localId :=
        Lib.Bytes.ofBE_inj (by rw [hx, hy, hg]) hv
      have hxy : x = y := by
        rcases x with ⟨g, i⟩
        rcases y with ⟨g', i'⟩
        simp only at hg hid
        rw [hg, hid]
      rw [hxy, ih hmap.2 (fun z hz => h1s z (by simp [hz])) fun z hz => h2s z (by simp [hz])]

lemma pclCompare_spec {ppcl1 ppcl2 : PclList} {seen1 seen2 : List SizedXid}
    (h1 : Built size ppcl1 seen1) (h2 : Built size ppcl2 seen2) :
    ((pclCompare ppcl1 ppcl2 &&& PCL_INCLUDED ≠ 0) ↔ latestIds ppcl1 ≤ latestIds ppcl2) ∧
      ((pclCompare ppcl1 ppcl2 &&& PCL_INCLUDE ≠ 0) ↔ latestIds ppcl2 ≤ latestIds ppcl1) := by
  rw [← all_pclCheckIncluded h2.inv.sorted h1.inv.sized h2.inv.sized,
    ← all_pclCheckIncluded h1.inv.sorted h2.inv.sized h1.inv.sized, pclCompare]
  split_ifs with ha hb hb <;>
    simp [ha, hb, PCL_CONFLICT, PCL_INCLUDE, PCL_INCLUDED]

/-- **Change lists are version vectors.** Lists built with local ids of one size for each GUID
are in strictly ascending order of their GUIDs and hold the latest local id seen of each; the
calls insert, join and compare in the order of such vectors. -/
theorem built_versionVector {a b c : PclList} {seenA seenB seenC : List SizedXid}
    (ha : Built size a seenA) (hb : Built size b seenB) (hc : Built size c seenC) :
    a.Pairwise (fun x y => memcmp x.guid.bytes y.guid.bytes < 0) ∧
    latestIds a = latestIds seenA ∧
    (∀ x, Sized size x → (pclAppend a x).1 = true ∧
      latestIds (pclAppend a x).2 = latestIds a ⊔ latestIds [x]) ∧
    ((pclMerge a b).1 = true ∧ latestIds (pclMerge a b).2 = latestIds a ⊔ latestIds b) ∧
    (pclMerge a a).2 = a ∧
    (pclMerge a b).2 = (pclMerge b a).2 ∧
    (pclMerge (pclMerge a b).2 c).2 = (pclMerge a (pclMerge b c).2).2 ∧
    ((pclCompare a b &&& PCL_INCLUDED ≠ 0) ↔ latestIds a ≤ latestIds b) ∧
    ((pclCompare a b &&& PCL_INCLUDE ≠ 0) ↔ latestIds b ≤ latestIds a) ∧
    (pclCompare a b = PCL_INCLUDE ||| PCL_INCLUDED ↔ latestIds a = latestIds b) := by
  have hcmp := pclCompare_spec ha hb
  refine ⟨?_, ha.inv.latest, fun x hx => ⟨?_, ?_⟩, ⟨?_, latestIds_merge ha hb⟩, ?_, ?_, ?_,
    hcmp.1, hcmp.2, ?_⟩
  · have hs := List.pairwise_map.1 ha.inv.sorted
    exact hs.imp fun h => (memcmp_lt _ _).2 h
  · exact (pclAppend_spec ha.inv.sized hx).1
  · rw [(ha.append hx).inv.latest, latestIds_append, ← ha.inv.latest]
  · exact (pclMerge_spec ha.inv.sized hb.inv.sized).1
  · exact (ha.merge ha).ext ha (by rw [latestIds_merge ha ha, sup_idem])
  · exact (ha.merge hb).ext (hb.merge ha)
      (by rw [latestIds_merge ha hb, latestIds_merge hb ha, sup_comm])
  · refine ((ha.merge hb).merge hc).ext (ha.merge (hb.merge hc)) ?_
    rw [latestIds_merge (ha.merge hb) hc, latestIds_merge ha hb,
      latestIds_merge ha (hb.merge hc), latestIds_merge hb hc, sup_assoc]
  · rw [le_antisymm_iff (a := latestIds a), ← hcmp.1, ← hcmp.2, pclCompare]
    split_ifs <;> simp [PCL_CONFLICT, PCL_INCLUDE, PCL_INCLUDED]

theorem built_versionVector_mixed :
    let g : Guid := ⟨List.replicate 16 1, rfl⟩
    let h : Guid := ⟨List.replicate 16 2, rfl⟩
    (pclMerge [⟨g, [3]⟩] [⟨g, [5]⟩, ⟨h, [0, 9]⟩]).1 = true := by
  intro g h
  have hs : ∀ i, Sized (fun k => if k = g then 1 else 2) ⟨g, [i]⟩ := fun _ => rfl
  have hb := (Built.init.append (hs 5)).append
    (show Sized (fun k => if k = g then 1 else 2) ⟨h, [0, 9]⟩ from rfl)
  exact (built_versionVector (Built.init.append (hs 3)) hb Built.init).2.2.2.1.1

end SteepSystem.Pcls.Run
