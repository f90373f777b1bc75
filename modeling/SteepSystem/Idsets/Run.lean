import SteepSystem.Idsets.Scan
import SteepSystem.Lib.Runs

/-!
Runs of the mutators from the empty set, against the set of pairs of a replica and a counter
value that they are meant to build.
-/

namespace SteepSystem.Idsets.Run

open SteepSystem.Lib.Ranges SteepSystem.Lib.Runs SteepSystem.RopUtil
open SteepSystem.Idsets.Model SteepSystem.Idsets.Scan

inductive Op
  | append (eid : ℕ)
  | appendRange (replid lowValue highValue : ℕ)
  | batchAppend (replid : ℕ) (pvalues : List ℕ)
  | remove (eid : ℕ)
  | concatenate (psetSrc : Idset)

def exec (pset : Idset) : Op → Bool × Idset
  | .append eid => idsetAppend pset eid
  | .appendRange replid low high => idsetAppendRange pset replid low high
  | .batchAppend replid pvalues => idsetBatchAppend pset replid pvalues
  | .remove eid => (true, idsetRemove pset eid)
  | .concatenate psetSrc => idsetConcatenate pset psetSrc

/-- A call that succeeds. -/
def Succeeds (pset : Idset) (op : Op) (pset' : Idset) : Prop := exec pset op = (true, pset')

def IsValue (v : ℕ) : Prop := 1 ≤ v ∧ v < 2 ^ 48

instance (v : ℕ) : Decidable (IsValue v) := inferInstanceAs (Decidable (_ ∧ _))

instance (pset : Idset) (op : Op) (pset' : Idset) : Decidable (Succeeds pset op pset') :=
  inferInstanceAs (Decidable (_ = _))

/-- The arguments are 16-bit replica numbers and counter values; in a concatenated set, those
of its nodes and the ends of their ranges are. -/
def Op.Valid : Op → Prop
  | .append eid => IsValue (ropUtilGetGcValue eid)
  | .appendRange replid low high => replid < 65536 ∧ IsValue low ∧ IsValue high
  | .batchAppend replid pvalues => replid < 65536 ∧ ∀ v ∈ pvalues, IsValue v
  | .remove eid => IsValue (ropUtilGetGcValue eid)
  | .concatenate psetSrc =>
    ∀ c ∈ concatCalls psetSrc, c.1 < 65536 ∧ IsValue c.2.low ∧ IsValue c.2.high

instance : DecidablePred Op.Valid
  | .append _ => inferInstanceAs (Decidable (IsValue _))
  | .appendRange _ _ _ => inferInstanceAs (Decidable (_ ∧ _ ∧ _))
  | .batchAppend _ pvalues => inferInstanceAs (Decidable (_ ∧ ∀ v ∈ pvalues, IsValue v))
  | .remove _ => inferInstanceAs (Decidable (IsValue _))
  | .concatenate psetSrc => inferInstanceAs (Decidable (∀ c ∈ concatCalls psetSrc, _ ∧ _ ∧ _))

/-- The pairs a set denotes. -/
def Idset.Has (pset : Idset) (replid value : ℕ) : Prop :=
  ∃ n ∈ pset.replList, n.replid = replid ∧ Covers n.rangeList value

/-- What a call is meant to do to the pairs. -/
def meant (S : Set (ℕ × ℕ)) : Op → Set (ℕ × ℕ)
  | .append eid => insert (ropUtilGetReplid eid, ropUtilGetGcValue eid) S
  | .appendRange replid low high => S ∪ {p | p.1 = replid ∧ low ≤ p.2 ∧ p.2 ≤ high}
  | .batchAppend replid pvalues => S ∪ {p | p.1 = replid ∧ p.2 ∈ pvalues}
  | .remove eid => S \ {(ropUtilGetReplid eid, ropUtilGetGcValue eid)}
  | .concatenate psetSrc => S ∪ {p | Idset.Has psetSrc p.1 p.2}

def callFits (pset : Idset) (call : ℕ × RangeNode) : Bool :=
  call.2.high = call.2.low || rangeFits call.2.low call.2.high (rangeListOf pset.replList call.1)

def concatFits : Idset → List (ℕ × RangeNode) → Bool
  | _, [] => true
  | pset, c :: cs => callFits pset c && concatFits (concatOne pset c).2 cs

/-- The states in which a call does what it is meant to do: a range meets the place where it
belongs, a batch has no value twice and no two values 2³¹ or more apart, a removed value does
not split a range. A concatenation makes calls that each meet their own condition. -/
def Op.Fits (pset : Idset) : Op → Prop
  | .append _ => True
  | .appendRange replid low high => rangeFits low high (rangeListOf pset.replList replid) = true
  | .batchAppend _ pvalues =>
    pvalues.Nodup ∧ ∀ a ∈ pvalues, ∀ b ∈ pvalues, idsetQsortCmp a b ≤ 0 ↔ a ≤ b
  | .remove eid => ∀ r ∈ rangeListOf pset.replList (ropUtilGetReplid eid),
      ¬ (r.low < ropUtilGetGcValue eid ∧ ropUtilGetGcValue eid < r.high)
  | .concatenate psetSrc => concatFits pset (concatCalls psetSrc) = true

instance (pset : Idset) : DecidablePred (Op.Fits pset)
  | .append _ => inferInstanceAs (Decidable True)
  | .appendRange _ _ _ => inferInstanceAs (Decidable (_ = true))
  | .batchAppend _ pvalues =>
    inferInstanceAs (Decidable (pvalues.Nodup ∧ ∀ a ∈ pvalues, ∀ b ∈ pvalues, _))
  | .remove eid => inferInstanceAs
      (Decidable (∀ r ∈ rangeListOf pset.replList (ropUtilGetReplid eid), ¬ _))
  | .concatenate _ => inferInstanceAs (Decidable (_ = true))

/-- One node a replica, and every range list in order. -/
structure WellFormed (pset : Idset) : Prop where
  nodup : (pset.replList.map ReplidNode.replid).Nodup
  ascending : ∀ n ∈ pset.replList, Ascending n.rangeList

/-- The set is well formed, denotes the pairs and answers for them. -/
structure Denotes (pset : Idset) (S : Set (ℕ × ℕ)) : Prop where
  wellFormed : WellFormed pset
  has_iff : ∀ replid value, Idset.Has pset replid value ↔ (replid, value) ∈ S
  hint_iff : ∀ eid,
    idsetHint pset eid = true ↔ (ropUtilGetReplid eid, ropUtilGetGcValue eid) ∈ S

/-- The invariant, with the range list found for a replica in place of the nodes. -/
structure Inv (pset : Idset) (S : Set (ℕ × ℕ)) : Prop where
  serialize : pset.bSerialize = true
  nodup : (pset.replList.map ReplidNode.replid).Nodup
  ordered : ∀ replid, Ordered (rangeListOf pset.replList replid)
  covers : ∀ replid v, Covers (rangeListOf pset.replList replid) v ↔ (replid, v) ∈ S

section Nodes

variable {nodes : List ReplidNode}

@[simp] lemma rangeListOf_nil (replid : ℕ) : rangeListOf [] replid = [] := rfl

lemma rangeListOf_cons (n : ReplidNode) (replid : ℕ) :
    rangeListOf (n :: nodes) replid =
      if n.replid = replid then n.rangeList else rangeListOf nodes replid := by
  simp only [rangeListOf, List.find?_cons]
  split_ifs with h <;> simp [h]

lemma rangeListOf_updateRepl (f : List RangeNode → List RangeNode) (replid r : ℕ) :
    rangeListOf (updateRepl replid f nodes) r =
      if r = replid then f (rangeListOf nodes replid) else rangeListOf nodes r := by
  induction nodes with
  | nil =>
    rw [updateRepl, rangeListOf_cons]
    simp [eq_comm]
  | cons n ns ih =>
    rw [updateRepl]
    split_ifs with h1 h2 <;> simp only [rangeListOf_cons] <;> grind

lemma nodup_updateRepl (f : List RangeNode → List RangeNode) (replid : ℕ)
    (h : (nodes.map ReplidNode.replid).Nodup) :
    ((updateRepl replid f nodes).map ReplidNode.replid).Nodup ∧
      ∀ r ∈ (updateRepl replid f nodes).map ReplidNode.replid,
        r = replid ∨ r ∈ nodes.map ReplidNode.replid := by
  induction nodes with
  | nil => simp [updateRepl]
  | cons n ns ih =>
    simp only [List.map_cons, List.nodup_cons] at h
    obtain ⟨ih1, ih2⟩ := ih h.2
    rw [updateRepl]
    split_ifs with hn
    · exact ⟨by simpa using h, by simp_all⟩
    · refine ⟨List.nodup_cons.2 ⟨fun hm => ?_, ih1⟩, fun r hr => ?_⟩
      · exact (ih2 _ hm).elim hn h.1
      · rcases List.mem_cons.1 hr with rfl | hr
        · simp
        · exact (ih2 r hr).imp id fun hm => by simp [hm]

lemma map_removeRepl (replid value : ℕ) :
    (removeRepl replid value nodes).map ReplidNode.replid = nodes.map ReplidNode.replid := by
  induction nodes with
  | nil => rfl
  | cons n ns ih => rw [removeRepl]; split_ifs <;> simp [ih]

lemma rangeListOf_removeRepl (replid value r : ℕ) :
    rangeListOf (removeRepl replid value nodes) r =
      if r = replid then removeScan value (rangeListOf nodes replid) else rangeListOf nodes r := by
  induction nodes with
  | nil => simp [removeRepl, removeScan]
  | cons n ns ih =>
    rw [removeRepl]
    split_ifs with h1 h2 <;> simp only [rangeListOf_cons] <;> grind

lemma rangeListOf_append (m : ReplidNode) (r : ℕ) (h : ∀ n ∈ nodes, n.replid ≠ m.replid) :
    rangeListOf (nodes ++ [m]) r = if r = m.replid then m.rangeList else rangeListOf nodes r := by
  induction nodes with
  | nil => simp [rangeListOf_cons, eq_comm]
  | cons n ns ih =>
    have hn := h n (by simp)
    rw [List.cons_append, rangeListOf_cons, rangeListOf_cons,
      ih fun k hk => h k (List.mem_cons_of_mem _ hk)]
    grind

lemma rangeListOf_of_mem {n : ReplidNode} (h : (nodes.map ReplidNode.replid).Nodup)
    (hn : n ∈ nodes) : rangeListOf nodes n.replid = n.rangeList := by
  induction nodes with
  | nil => simp at hn
  | cons m ms ih =>
    simp only [List.map_cons, List.nodup_cons] at h
    rw [rangeListOf_cons]
    rcases List.mem_cons.1 hn with rfl | hn
    · simp
    · rw [if_neg, ih h.2 hn]
      rintro heq
      exact h.1 (heq ▸ List.mem_map_of_mem hn)

lemma covers_rangeListOf {r v : ℕ} (h : Covers (rangeListOf nodes r) v) :
    ∃ n ∈ nodes, n.replid = r ∧ Covers n.rangeList v := by
  induction nodes with
  | nil => simp at h
  | cons m ms ih =>
    rw [rangeListOf_cons] at h
    split_ifs at h with hm
    · exact ⟨m, by simp, hm, h⟩
    · obtain ⟨n, hn, hr, hc⟩ := ih h
      exact ⟨n, by simp [hn], hr, hc⟩

end Nodes

lemma has_iff_covers {pset : Idset} (h : (pset.replList.map ReplidNode.replid).Nodup)
    (r v : ℕ) : Idset.Has pset r v ↔ Covers (rangeListOf pset.replList r) v := by
  refine ⟨?_, covers_rangeListOf⟩
  rintro ⟨n, hn, rfl, hc⟩
  rwa [rangeListOf_of_mem h hn]

lemma Inv.denotes {pset : Idset} {S : Set (ℕ × ℕ)} (h : Inv pset S) : Denotes pset S := by
  refine ⟨⟨h.nodup, fun n hn => ?_⟩, fun r v => ?_, fun eid => ?_⟩
  · rw [← rangeListOf_of_mem h.nodup hn]
    exact (h.ordered _).asc
  · rw [has_iff_covers h.nodup, h.covers]
  · rw [idsetHint, if_neg (by simp [h.serialize]), ← h.covers]
    simp [Covers, Range.Has]

lemma inv_init : Inv (idsetInit true .id) ∅ :=
  ⟨rfl, by simp [idsetInit], fun _ => ordered_nil, by simp [idsetInit]⟩

/-- A call that changes the list of one replica as the pairs change. -/
lemma Inv.update {pset pset' : Idset} {S S' : Set (ℕ × ℕ)} (h : Inv pset S) {replid : ℕ}
    {l : List RangeNode} (hser : pset'.bSerialize = pset.bSerialize)
    (hnodup : (pset'.replList.map ReplidNode.replid).Nodup)
    (hlist : ∀ r, rangeListOf pset'.replList r =
      if r = replid then l else rangeListOf pset.replList r)
    (hasc : Ascending l) (hcov : ∀ v, Covers l v ↔ (replid, v) ∈ S')
    (hval : ∀ v, (replid, v) ∈ S' → IsValue v)
    (hframe : ∀ r v, r ≠ replid → ((r, v) ∈ S' ↔ (r, v) ∈ S)) : Inv pset' S' where
  serialize := hser.trans h.serialize
  nodup := hnodup
  ordered r := by
    rw [hlist]
    split_ifs
    · exact ⟨hasc, fun v hv => hval v ((hcov v).1 hv)⟩
    · exact h.ordered r
  covers r v := by
    rw [hlist]
    split_ifs with hr
    · rw [hcov, hr]
    · rw [h.covers, hframe r v hr]

lemma Inv.value {pset : Idset} {S : Set (ℕ × ℕ)} (h : Inv pset S) {r v : ℕ}
    (hv : (r, v) ∈ S) : IsValue v :=
  (h.ordered r).bounds v ((h.covers r v).2 hv)

lemma Inv.append {pset : Idset} {S : Set (ℕ × ℕ)} (h : Inv pset S) (replid : ℕ) {value : ℕ}
    (hv : IsValue value) :
    ∃ pset', idsetAppendInternal pset replid value = (true, pset') ∧
      Inv pset' (insert (replid, value) S) := by
  obtain ⟨hA, hC⟩ := appendScan_spec (h.ordered replid) hv.1 hv.2
  refine ⟨{ pset with replList := updateRepl replid (appendScan value []) pset.replList },
    by rw [idsetAppendInternal, if_neg (by simp [h.serialize])],
    h.update rfl (nodup_updateRepl _ _ h.nodup).1 (rangeListOf_updateRepl _ replid) hA ?_ ?_ ?_⟩
  · intro v
    simp [hC, h.covers]
  · rintro v (he | hm)
    · exact (Prod.mk.inj he).2 ▸ hv
    · exact h.value hm
  · intro r v hr
    simp [hr]

lemma Inv.appendRange {pset : Idset} {S : Set (ℕ × ℕ)} (h : Inv pset S) {replid low high : ℕ}
    (hlo : IsValue low) (hhi : IsValue high) (hle : low ≤ high)
    (hf : rangeFits low high (rangeListOf pset.replList replid) = true) :
    ∃ pset', idsetAppendRange pset replid low high = (true, pset') ∧
      Inv pset' (S ∪ {p | p.1 = replid ∧ low ≤ p.2 ∧ p.2 ≤ high}) := by
  obtain ⟨hA, hC⟩ := appendRangeScan_spec (h.ordered replid) hle hf
  refine ⟨{ pset with replList := updateRepl replid (appendRangeScan low high []) pset.replList },
    by rw [idsetAppendRange, if_neg (by simp [h.serialize]), if_neg (by omega)],
    h.update rfl (nodup_updateRepl _ _ h.nodup).1 (rangeListOf_updateRepl _ replid) hA ?_ ?_ ?_⟩
  · intro v
    simp [hC, h.covers, or_comm]
  · rintro v (hm | ⟨-, h1, h2⟩)
    · exact h.value hm
    · exact ⟨hlo.1.trans h1, h2.trans_lt hhi.2⟩
  · intro r v hr
    simp [hr]

lemma Inv.batchAppend {pset pset' : Idset} {S : Set (ℕ × ℕ)} (h : Inv pset S) {replid : ℕ}
    {pvalues : List ℕ} (hv : ∀ v ∈ pvalues, IsValue v) (hn : pvalues.Nodup)
    (hc : ∀ a ∈ pvalues, ∀ b ∈ pvalues, idsetQsortCmp a b ≤ 0 ↔ a ≤ b)
    (hok : idsetBatchAppend pset replid pvalues = (true, pset')) :
    Inv pset' (S ∪ {p | p.1 = replid ∧ p.2 ∈ pvalues}) := by
  have hmem : ∀ v, v ∈ (pvalues.mergeSort fun a b => idsetQsortCmp a b ≤ 0) ↔ v ∈ pvalues :=
    fun v => List.mem_mergeSort
  rw [idsetBatchAppend] at hok
  split_ifs at hok with h1 h2 h3
  · cases hok
  · cases hok
  · cases hok
  cases hok
  simp only [List.any_eq_true, decide_eq_true_eq, not_exists, not_and] at h3
  obtain ⟨hA, hC⟩ := batchScan_spec
    (show Ascending ([] : List RangeNode).reverse by simp) (pairwise_mergeSort_cmp hn hc)
    (fun v hm => (hv v ((hmem v).1 hm)).2) (by simp)
  -- the replica had no node, so no pair
  have hfresh : ∀ v, (replid, v) ∉ S := by
    intro v hm
    obtain ⟨n, hn, hr, -⟩ := covers_rangeListOf ((h.covers replid v).2 hm)
    exact h3 n hn hr
  refine h.update rfl ?_ (fun r => rangeListOf_append _ r h3) hA ?_ ?_ ?_
  · simp only [List.map_append, List.map_cons, List.map_nil]
    refine List.nodup_append.2 ⟨h.nodup, by simp, ?_⟩
    simpa using h3
  · intro v
    simp [hC, hmem, hfresh]
  · rintro v (hm | ⟨-, hm⟩)
    · exact h.value hm
    · exact hv v hm
  · intro r v hr
    simp [hr]

lemma Inv.remove {pset : Idset} {S : Set (ℕ × ℕ)} (h : Inv pset S) {eid : ℕ}
    (hf : ∀ r ∈ rangeListOf pset.replList (ropUtilGetReplid eid),
      ¬ (r.low < ropUtilGetGcValue eid ∧ ropUtilGetGcValue eid < r.high)) :
    Inv (idsetRemove pset eid) (S \ {(ropUtilGetReplid eid, ropUtilGetGcValue eid)}) := by
  obtain ⟨hA, hC⟩ := removeScan_spec (h.ordered (ropUtilGetReplid eid)) hf
  rw [idsetRemove, if_neg (by simp [h.serialize])]
  refine h.update rfl ?_ (rangeListOf_removeRepl _ _) hA ?_ ?_ ?_
  · rw [map_removeRepl]
    exact h.nodup
  · intro v
    simp [hC, h.covers]
  · intro v hm
    exact h.value hm.1
  · intro r v hr
    simp [hr]

lemma Inv.concatOne {pset pset' : Idset} {S : Set (ℕ × ℕ)} (h : Inv pset S)
    {call : ℕ × RangeNode} (hlo : IsValue call.2.low) (hhi : IsValue call.2.high)
    (hf : callFits pset call = true) (hok : concatOne pset call = (true, pset')) :
    Inv pset' (S ∪ {p | p.1 = call.1 ∧ call.2.Has p.2}) := by
  rw [Model.concatOne] at hok
  split_ifs at hok with heq
  · obtain ⟨_, hok', hI⟩ := h.append call.1 hlo
    rw [hok'] at hok
    cases hok
    convert hI using 1
    ext ⟨r, v⟩
    simp only [Set.mem_union, Set.mem_ofPred_eq, Range.Has, Set.mem_insert_iff, Prod.mk.injEq]
    rw [heq]
    constructor
    · rintro (hm | ⟨hr, h1, h2⟩)
      · exact .inr hm
      · exact .inl ⟨hr, by omega⟩
    · rintro (⟨hr, rfl⟩ | hm)
      · exact .inr ⟨hr, le_rfl, le_rfl⟩
      · exact .inl hm
  · have hle : call.2.low ≤ call.2.high := by
      by_contra hlt
      rw [idsetAppendRange, if_neg (by simp [h.serialize]), if_pos (by omega)] at hok
      cases hok
    simp only [callFits, heq, decide_false, Bool.false_or] at hf
    obtain ⟨_, hok', hI⟩ := h.appendRange hlo hhi hle hf
    rw [hok'] at hok
    cases hok
    exact hI

lemma Inv.concatLoop {pset pset' : Idset} {S : Set (ℕ × ℕ)} (h : Inv pset S)
    {calls : List (ℕ × RangeNode)} (hv : ∀ c ∈ calls, c.1 < 65536 ∧ IsValue c.2.low ∧ IsValue c.2.high)
    (hf : concatFits pset calls = true) (hok : concatLoop pset calls = (true, pset')) :
    Inv pset' (S ∪ {p | ∃ c ∈ calls, c.1 = p.1 ∧ c.2.Has p.2}) := by
  induction calls generalizing pset S with
  | nil =>
    cases hok
    simpa using h
  | cons c cs ih =>
    simp only [concatFits, Bool.and_eq_true] at hf
    obtain ⟨-, hlo, hhi⟩ := hv c (by simp)
    rw [Model.concatLoop] at hok
    rcases hc : Model.concatOne pset c with ⟨_ | _, mid⟩ <;> rw [hc] at hok
    · cases hok
    · have hI := ih (h.concatOne hlo hhi hf.1 hc) (fun d hd => hv d (by simp [hd]))
        (by rw [hc] at hf; exact hf.2) hok
      convert hI using 1
      ext ⟨r, v⟩
      simp only [Set.mem_union, Set.mem_ofPred_eq, List.mem_cons, exists_eq_or_imp, or_assoc,
        eq_comm (a := r)]

lemma mem_concatCalls {psetSrc : Idset} {r v : ℕ} :
    (∃ c ∈ concatCalls psetSrc, c.1 = r ∧ c.2.Has v) ↔ Idset.Has psetSrc r v := by
  simp only [concatCalls, List.mem_flatMap, List.mem_map, Idset.Has, Covers]
  constructor
  · rintro ⟨_, ⟨n, hn, g, hg, rfl⟩, hr, hv⟩
    exact ⟨n, hn, hr, g, hg, hv⟩
  · rintro ⟨n, hn, hr, g, hg, hv⟩
    exact ⟨(n.replid, g), ⟨n, hn, g, hg, rfl⟩, hr, hv⟩

/-- What one call keeps: in a state that it fits, it does to the pairs what it is meant to. -/
lemma Inv.step {pset pset' : Idset} {S : Set (ℕ × ℕ)} (h : Inv pset S) {op : Op}
    (hv : op.Valid) (hf : op.Fits pset) (hok : Succeeds pset op pset') :
    Inv pset' (meant S op) := by
  rw [Succeeds] at hok
  cases op with
  | append eid =>
    obtain ⟨_, hok', hI⟩ := h.append (ropUtilGetReplid eid) hv
    rw [exec, idsetAppend, hok'] at hok
    cases hok
    exact hI
  | appendRange replid low high =>
    have hle : low ≤ high := by
      by_contra hlt
      rw [exec, idsetAppendRange, if_neg (by simp [h.serialize]), if_pos (by omega)] at hok
      cases hok
    obtain ⟨_, hok', hI⟩ := h.appendRange hv.2.1 hv.2.2 hle hf
    rw [exec, hok'] at hok
    cases hok
    exact hI
  | batchAppend replid pvalues => exact h.batchAppend hv.2 hf.1 hf.2 hok
  | remove eid =>
    cases hok
    exact h.remove hf
  | concatenate psetSrc =>
    rw [exec, idsetConcatenate] at hok
    split_ifs at hok with hser
    · cases hok
    have hI := h.concatLoop hv hf hok
    simpa only [meant, mem_concatCalls] using hI

lemma inv_of_run {ops : List Op} {pset : Idset}
    (h : Run (fun s op => op.Valid ∧ op.Fits s) Succeeds (idsetInit true .id) ops pset) :
    Inv pset (ops.foldl meant ∅) :=
  h.simulates (R := Inv) (f := meant) (fun _ _ _ _ hI hop hst => hI.step hop.1 hop.2 hst) inv_init

/-- **Runs of the mutators.** When every call of a run from the empty set is made in a state it
fits, the last state is well formed, denotes what the calls are meant to build, and answers for
it. -/
theorem denotes_of_run {ops : List Op} {pset : Idset}
    (h : Run (fun s op => op.Valid ∧ op.Fits s) Succeeds (idsetInit true .id) ops pset) :
    Denotes pset (ops.foldl meant ∅) :=
  (inv_of_run h).denotes

theorem denotes_of_run_mixed :
    Denotes ⟨true, .id, [⟨1, [⟨5, 5⟩, ⟨7, 7⟩, ⟨9, 9⟩, ⟨20, 30⟩]⟩, ⟨2, [⟨3, 3⟩, ⟨5, 9⟩]⟩]⟩
      ([.batchAppend 1 [9, 4, 5], .appendRange 1 20 30, .append (ropUtilMakeEidEx 1 7),
        .remove (ropUtilMakeEidEx 1 4),
        .concatenate ⟨true, .id, [⟨2, [⟨3, 3⟩, ⟨5, 9⟩]⟩]⟩].foldl meant ∅) := by
  have hbatch : Succeeds (idsetInit true .id) (.batchAppend 1 [9, 4, 5])
      ⟨true, .id, [⟨1, [⟨4, 5⟩, ⟨9, 9⟩]⟩]⟩ := by
    simp [Succeeds, exec, idsetBatchAppend, idsetInit, List.mergeSort, idsetQsortCmp, batchScan,
      inc64, Int.bmod, List.MergeSort.Internal.splitInTwo]
  refine denotes_of_run (.cons ⟨by decide, by decide, by decide⟩ hbatch
    (.cons ⟨by decide, by decide⟩ rfl (.cons ⟨by decide, trivial⟩ rfl
      (.cons ⟨by decide, ?_⟩ rfl (.cons ⟨?_, by decide⟩ rfl (.nil _))))))
  · decide
  · decide

/-- A range appended where a longer one begins takes the rest of that one away. -/
theorem not_denotes_of_run :
    ¬ ∀ (ops : List Op) (pset : Idset),
      Run (fun _ op => op.Valid) Succeeds (idsetInit true .id) ops pset →
        Denotes pset (ops.foldl meant ∅) := by
  intro h
  have hd := h [.appendRange 1 1 1, .appendRange 1 3 20, .appendRange 1 1 10]
    ⟨true, .id, [⟨1, [⟨1, 10⟩]⟩]⟩
    (.cons (by decide) rfl (.cons (by decide) rfl (.cons (by decide) rfl (.nil _))))
  have hmem := (hd.has_iff 1 15).2 (by simp [meant])
  simp [Idset.Has, Range.Has] at hmem

end SteepSystem.Idsets.Run
