import SteepSystem.Idsets.Run

/-!
The id sets of a synchronization: what the state of a client holds, how `ics.c` enumerates and
caches it, and the sets that the state returned to the client is made of.
-/

namespace SteepSystem.Ics.Sets

open SteepSystem.Lib.Ranges SteepSystem.RopUtil SteepSystem.Idsets.Model SteepSystem.Idsets.Run

/-- The members of `ICS_STATE` that a download reads and writes. -/
structure IcsState where
  pgiven : Idset
  pseen : Idset
  pseenFai : Idset
  pread : Idset

/-- A set as a client can have it: sorted by replica numbers, of 48-bit counters. Its ranges may
be empty, overlap or stand in any order. -/
structure IsClientSet (pset : Idset) : Prop where
  serialize : pset.bSerialize = true
  replid_mem : ∀ n ∈ pset.replList, 1 ≤ n.replid ∧ n.replid < 65536
  high_lt : ∀ n ∈ pset.replList, ∀ r ∈ n.rangeList, r.high < 2 ^ 48

structure IcsState.IsClientState (pstate : IcsState) : Prop where
  pgiven : IsClientSet pstate.pgiven
  pseen : IsClientSet pstate.pseen
  pseenFai : IsClientSet pstate.pseenFai
  pread : IsClientSet pstate.pread

/-- What `idset_hint` answers for: the first node of a replica counts. -/
def Holds (pset : Idset) (replid value : ℕ) : Prop := Covers (rangeListOf pset.replList replid) value

instance (pset : Idset) (replid value : ℕ) : Decidable (Holds pset replid value) :=
  inferInstanceAs (Decidable (Covers _ _))

/-- The counters that a loop over one range visits. -/
def rangeValues (r : RangeNode) : List ℕ := List.range' r.low (r.high + 1 - r.low)

/-- The calls that `idset_enum_replist` makes, on a set kept by replica numbers. -/
def idsetEnumReplist (pset : Idset) : List ℕ := pset.replList.map ReplidNode.replid

/-- The calls that `idset_enum_repl` makes, likewise. -/
def idsetEnumRepl (pset : Idset) (replid : ℕ) : List ℕ :=
  (rangeListOf pset.replList replid).flatMap fun r => (rangeValues r).map (ropUtilMakeEidEx replid)

/-- `INSERT` into a table whose one column is its primary key. -/
def insertKey (table : List ℕ) (key : ℕ) : Option (List ℕ) :=
  if key ∈ table then none else some (table ++ [key])

def IDSET_CACHE_MIN_RANGE : ℕ := 10

structure IdsetCache where
  idVals : List ℕ
  rangeList : List RangeNode

/-- Whether the cache expands a range into its values; the difference is one of `uint64_t`. -/
def isShort (r : RangeNode) : Bool := (r.high + 2 ^ 64 - r.low) % 2 ^ 64 < IDSET_CACHE_MIN_RANGE

def cacheRange (pcache : IdsetCache) (r : RangeNode) : Option IdsetCache :=
  if isShort r then
    ((rangeValues r).foldlM insertKey pcache.idVals).map fun t => { pcache with idVals := t }
  else some { pcache with rangeList := pcache.rangeList ++ [r] }

def icsInitIdsetCache (pset : Idset) : Option IdsetCache :=
  (rangeListOf pset.replList 1).foldlM cacheRange ⟨[], []⟩

def icsHintIdsetCache (pcache : IdsetCache) (idVal : ℕ) : Bool :=
  idVal ∈ pcache.idVals || pcache.rangeList.any fun r => r.low ≤ idVal ∧ idVal ≤ r.high

/-- The loop that appends the identifiers given to the client. -/
def appendGiven (pset : Idset) : List ℕ → Option Idset
  | [] => some pset
  | eid :: eids =>
    match idsetAppend pset eid with
    | (true, pset) => appendGiven pset eids
    | (false, _) => none

/-- A cleared set with one range of replica 1 from counter 1 on. -/
def clearAppendRange (pset : Idset) (high : ℕ) : Option Idset :=
  match idsetAppendRange (idsetClear pset) 1 1 high with
  | (true, pset) => some pset
  | (false, _) => none

section Enumeration

variable {pset : Idset} {r : RangeNode} {v replid : ℕ}

@[simp] lemma mem_rangeValues : v ∈ rangeValues r ↔ r.Has v := by
  simp only [rangeValues, List.mem_range'_1, Range.Has]
  omega

lemma mem_idsetEnumRepl {eid : ℕ} : eid ∈ idsetEnumRepl pset replid ↔
    ∃ v, Holds pset replid v ∧ ropUtilMakeEidEx replid v = eid := by
  simp only [idsetEnumRepl, List.mem_flatMap, List.mem_map, mem_rangeValues, Holds, Covers]
  tauto

lemma idsetHint_iff (h : pset.bSerialize = true) (eid : ℕ) :
    idsetHint pset eid = true ↔ Holds pset (ropUtilGetReplid eid) (ropUtilGetGcValue eid) := by
  rw [idsetHint, if_neg (by simp [h])]
  simp [Holds, Covers, Range.Has]

lemma idsetHint_makeEidEx (h : pset.bSerialize = true) {v : ℕ} (hv : v < 2 ^ 48) :
    idsetHint pset (ropUtilMakeEidEx 1 v) = true ↔ Holds pset 1 v := by
  rw [idsetHint_iff h, ropUtilGetReplid_makeEidEx (by norm_num),
    ropUtilGetGcValue_makeEidEx (by norm_num) hv]

lemma IsClientSet.replid_of_holds (h : IsClientSet pset) (hv : Holds pset replid v) :
    1 ≤ replid ∧ replid < 65536 := by
  obtain ⟨n, hn, rfl, -⟩ := covers_rangeListOf hv
  exact h.replid_mem n hn

lemma IsClientSet.value_of_holds (h : IsClientSet pset) (hv : Holds pset replid v) :
    v < 2 ^ 48 := by
  obtain ⟨n, hn, rfl, r, hr, hle⟩ := covers_rangeListOf hv
  exact hle.2.trans_lt (h.high_lt n hn r hr)

end Enumeration

section Cache

variable {pset : Idset} {l : List RangeNode} {pcache pcache' : IdsetCache}

lemma foldlM_insertKey {t : List ℕ} (ht : t.Nodup) (vs : List ℕ) :
    vs.foldlM insertKey t = if (t ++ vs).Nodup then some (t ++ vs) else none := by
  induction vs generalizing t with
  | nil => simp [ht]
  | cons v vs ih =>
    rw [List.foldlM_cons, insertKey]
    by_cases hv : v ∈ t
    · have hdup : ¬ (t ++ v :: vs).Nodup := by
        simp only [List.nodup_append, List.nodup_cons, not_and]
        intro _ _ hd
        exact hd v hv v (by simp) rfl
      rw [if_pos hv, if_neg hdup]
      rfl
    · rw [if_neg hv, Option.bind_eq_bind, Option.bind_some,
        ih (List.nodup_append.2 ⟨ht, by simp, fun a ha b hb hab => ?_⟩)]
      · simp only [List.append_assoc, List.singleton_append]
      · rw [List.mem_singleton] at hb
        exact hv (hb ▸ hab ▸ ha)

/-- The values that the cache expands. -/
def shortValues (l : List RangeNode) : List ℕ := (l.filter isShort).flatMap rangeValues

lemma foldlM_cacheRange (pcache : IdsetCache) (hn : pcache.idVals.Nodup) :
    l.foldlM cacheRange pcache =
      if (pcache.idVals ++ shortValues l).Nodup then
        some ⟨pcache.idVals ++ shortValues l, pcache.rangeList ++ l.filter (! isShort ·)⟩
      else none := by
  induction l generalizing pcache with
  | nil => simp [shortValues, hn]
  | cons r l ih =>
    rw [List.foldlM_cons, cacheRange]
    by_cases hs : isShort r
    · have hcons : shortValues (r :: l) = rangeValues r ++ shortValues l := by
        simp [shortValues, hs]
      rw [if_pos hs, foldlM_insertKey hn, hcons, ← List.append_assoc]
      by_cases hd : (pcache.idVals ++ rangeValues r).Nodup
      · rw [if_pos hd, Option.map_some, Option.bind_eq_bind, Option.bind_some,
          ih ⟨pcache.idVals ++ rangeValues r, pcache.rangeList⟩ hd]
        simp [hs]
      · rw [if_neg hd, if_neg fun h => hd (List.nodup_append.1 h).1]
        rfl
    · have hcons : shortValues (r :: l) = shortValues l := by simp [shortValues, hs]
      rw [if_neg hs, Option.bind_eq_bind, Option.bind_some,
        ih ⟨pcache.idVals, pcache.rangeList ++ [r]⟩ hn, hcons]
      simp [hs]

lemma icsInitIdsetCache_eq (pset : Idset) :
    icsInitIdsetCache pset =
      if (shortValues (rangeListOf pset.replList 1)).Nodup then
        some ⟨shortValues (rangeListOf pset.replList 1),
          (rangeListOf pset.replList 1).filter (! isShort ·)⟩
      else none :=
  foldlM_cacheRange ⟨[], []⟩ .nil

/-- The cache answers as the set does for replica 1. -/
lemma icsHintIdsetCache_iff (h : icsInitIdsetCache pset = some pcache) (v : ℕ) :
    icsHintIdsetCache pcache v = true ↔ Holds pset 1 v := by
  rw [icsInitIdsetCache_eq] at h
  split_ifs at h
  cases h
  rw [icsHintIdsetCache, Bool.or_eq_true, decide_eq_true_eq, List.any_eq_true, Holds, Covers]
  simp only [shortValues, List.mem_flatMap, List.mem_filter, mem_rangeValues, Range.Has,
    decide_eq_true_eq, Bool.not_eq_true']
  constructor
  · rintro (⟨r, ⟨hr, -⟩, hv⟩ | ⟨r, ⟨hr, -⟩, hv⟩)
    · exact ⟨r, hr, hv⟩
    · exact ⟨r, hr, hv⟩
  · rintro ⟨r, hr, hv⟩
    cases hs : isShort r with
    | true => exact .inl ⟨r, ⟨hr, hs⟩, hv⟩
    | false => exact .inr ⟨r, ⟨hr, hs⟩, hv⟩

/-- The cache can be built when no two ranges that it expands share a value. -/
lemma icsInitIdsetCache_isSome : (icsInitIdsetCache pset).isSome = true ↔
    ((rangeListOf pset.replList 1).filter isShort).Pairwise fun a b =>
      ∀ v, ¬ (a.Has v ∧ b.Has v) := by
  have hrange : ∀ r : RangeNode, (rangeValues r).Nodup := fun r => List.nodup_range'
  have hdisjoint : ∀ a b : RangeNode, (Function.onFun List.Disjoint rangeValues) a b ↔
      ∀ v, ¬ (a.Has v ∧ b.Has v) := by
    intro a b
    simp [Function.onFun, List.Disjoint]
  have hnodup : (shortValues (rangeListOf pset.replList 1)).Nodup ↔
      ((rangeListOf pset.replList 1).filter isShort).Pairwise fun a b =>
        ∀ v, ¬ (a.Has v ∧ b.Has v) := by
    rw [shortValues, List.nodup_flatMap]
    exact ⟨fun h => h.2.imp (hdisjoint _ _).1, fun h => ⟨fun r _ => hrange r,
      h.imp (hdisjoint _ _).2⟩⟩
  rw [icsInitIdsetCache_eq, ← hnodup]
  split_ifs with hp <;> simp [hp]

lemma isSome_of_ascending (h : Ascending (rangeListOf pset.replList 1)) :
    (icsInitIdsetCache pset).isSome = true := by
  rw [icsInitIdsetCache_isSome]
  refine (h.2.imp fun {a b} hab v hv => ?_).filter _
  have h1 := hv.1.2
  have h2 := hv.2.1
  omega

end Cache

section Maximum

variable {β : Type*} (cnOf : β → ℕ)

lemma le_foldl_max (rows : List β) (cn : ℕ) :
    cn ≤ rows.foldl (fun cn row => max cn (cnOf row)) cn ∧
      ∀ row ∈ rows, cnOf row ≤ rows.foldl (fun cn row => max cn (cnOf row)) cn := by
  induction rows generalizing cn with
  | nil => simp
  | cons r rows ih =>
    obtain ⟨h1, h2⟩ := ih (max cn (cnOf r))
    rw [List.foldl_cons]
    refine ⟨by omega, fun row hrow => ?_⟩
    rcases List.mem_cons.1 hrow with rfl | hrow
    · omega
    · exact h2 row hrow

lemma foldl_max_lt {rows : List β} {cn bound : ℕ} (hcn : cn < bound)
    (h : ∀ row ∈ rows, cnOf row < bound) :
    rows.foldl (fun cn row => max cn (cnOf row)) cn < bound := by
  induction rows generalizing cn with
  | nil => exact hcn
  | cons r rows ih => exact ih (max_lt hcn (h r (by simp))) fun row hrow => h row (by simp [hrow])

end Maximum

section Written

variable {pset : Idset}

lemma appendGiven_spec (h : pset.bSerialize = true) (vs : List ℕ) (hvs : ∀ v ∈ vs, IsValue v) :
    ∃ pset', appendGiven (idsetClear pset) (vs.map (ropUtilMakeEidEx 1)) = some pset' ∧
      IsClientSet pset' ∧ Ascending (rangeListOf pset'.replList 1) ∧
      (idsetEnumReplist pset').length ≤ 1 ∧
      ∀ r v, Holds pset' r v ↔ r = 1 ∧ v ∈ vs := by
  -- the loop, from any set of values of replica 1
  suffices hloop : ∀ (vs : List ℕ) (s : Idset) (S : Set (ℕ × ℕ)), (∀ v ∈ vs, IsValue v) →
      Inv s S → (∀ n ∈ s.replList, n.replid = 1) →
      ∃ s', appendGiven s (vs.map (ropUtilMakeEidEx 1)) = some s' ∧
        Inv s' (S ∪ {p | p.1 = 1 ∧ p.2 ∈ vs}) ∧ ∀ n ∈ s'.replList, n.replid = 1 by
    have hstart : Inv (idsetClear pset) ∅ :=
      ⟨h, by simp [idsetClear], fun _ => Idsets.Scan.ordered_nil, by simp [idsetClear]⟩
    obtain ⟨s', hs', hI, hone⟩ := hloop vs _ _ hvs hstart (by simp [idsetClear])
    refine ⟨s', hs', ⟨hI.serialize, fun n hn => by simp [hone n hn], fun n hn r hr => ?_⟩,
      (hI.ordered 1).asc, ?_, fun r v => ?_⟩
    · have hlist := rangeListOf_of_mem hI.nodup hn
      have hle := (hI.ordered n.replid).asc.le (hlist ▸ hr)
      exact ((hI.ordered n.replid).bounds r.high (hlist ▸ ⟨r, hr, hle, le_rfl⟩)).2
    · rcases hl : s'.replList with _ | ⟨a, _ | ⟨b, l⟩⟩
      · simp [idsetEnumReplist, hl]
      · simp [idsetEnumReplist, hl]
      · have hnodup := hI.nodup
        have ha := hone a (by simp [hl])
        have hb := hone b (by simp [hl])
        simp [hl, ha, hb] at hnodup
    · rw [Holds, hI.covers]
      simp
  intro vs
  induction vs with
  | nil =>
    intro s S _ hI hone
    exact ⟨s, rfl, by simpa using hI, hone⟩
  | cons v vs ih =>
    intro s S hvs hI hone
    have hv := hvs v (by simp)
    obtain ⟨t, ht, hIt⟩ := hI.append 1 hv
    have honet : ∀ n ∈ t.replList, n.replid = 1 := by
      rw [idsetAppendInternal, if_neg (by simp [hI.serialize])] at ht
      cases ht
      intro n hn
      rcases (nodup_updateRepl (appendScan v []) 1 hI.nodup).2 _ (List.mem_map_of_mem hn) with h | h
      · exact h
      · obtain ⟨m, hm, heq⟩ := List.mem_map.1 h
        exact heq ▸ hone m hm
    obtain ⟨s', hs', hI', hone'⟩ := ih t _ (fun w hw => hvs w (by simp [hw])) hIt honet
    refine ⟨s', ?_, ?_, hone'⟩
    · rw [List.map_cons, appendGiven, idsetAppend, ropUtilGetReplid_makeEidEx (by norm_num),
        ropUtilGetGcValue_makeEidEx (by norm_num) hv.2, ht]
      exact hs'
    · convert hI' using 1
      ext ⟨r, w⟩
      simp only [Set.mem_union, Set.mem_ofPred_eq, List.mem_cons, Set.mem_insert_iff,
        Prod.mk.injEq]
      tauto

lemma clearAppendRange_spec (h : pset.bSerialize = true) {high : ℕ} (h1 : 1 ≤ high)
    (h2 : high < 2 ^ 48) :
    ∃ pset', clearAppendRange pset high = some pset' ∧ IsClientSet pset' ∧
      ∀ v, Holds pset' 1 v ↔ 1 ≤ v ∧ v ≤ high := by
  refine ⟨{ pset with replList := [⟨1, [⟨1, high⟩]⟩] }, ?_, ⟨h, by simp, by simpa using h2⟩, ?_⟩
  · rw [clearAppendRange, idsetAppendRange, if_neg (by simp [idsetClear, h]), if_neg (by omega)]
    rfl
  · intro v
    simp [Holds, rangeListOf_cons, Range.Has]

lemma isClientSet_clear (h : pset.bSerialize = true) : IsClientSet (idsetClear pset) :=
  ⟨h, by simp [idsetClear], by simp [idsetClear]⟩

end Written

end SteepSystem.Ics.Sets
