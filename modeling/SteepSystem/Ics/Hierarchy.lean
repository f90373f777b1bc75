import SteepSystem.Ics.HierarchyModel
import SteepSystem.Lib.Walk

/-!
What a hierarchy synchronization returns: the load of the folder changes is a walk over the
folders that the user sees, and the rest of the call reads its tables.
-/

namespace SteepSystem.Ics.Hierarchy

open SteepSystem.Lib.Ranges SteepSystem.Lib.Walk SteepSystem.RopUtil
open SteepSystem.Idsets.Model SteepSystem.Idsets.Run
open SteepSystem.Ics.Sets SteepSystem.Ics.HierarchyModel

variable {α : Type} (store : Store α) (username : Option String)

/-- The rows under a folder that the user sees. -/
def visibleUnder (parentId : ℕ) : List Folder :=
  (store.foldersUnder parentId).filter fun f => checkVisible store username f.folderId

/-- A folder that the user sees, reached from the root through such folders. -/
def Visible (root : ℕ) (f : Folder) : Prop := Under Folder.folderId (visibleUnder store username) root f

section Tree

variable {store username} {p root : ℕ} {f : Folder}

lemma mem_visibleUnder : f ∈ visibleUnder store username p ↔
    f ∈ store.folders ∧ f.parentId = some p ∧ (store.isPrivate ∨ ¬ f.isDeleted) ∧
      checkVisible store username f.folderId := by
  simp only [visibleUnder, Store.foldersUnder, List.mem_filter, decide_eq_true_eq]
  tauto

lemma Visible.mem (h : Visible store username root f) : f ∈ store.folders := by
  obtain ⟨p, -, hp⟩ := h
  exact (mem_visibleUnder.1 hp).1

lemma nodup_folders (store : Store α) : store.folders.Nodup := store.nodup_folderId.of_map

lemma exists_isForest (store : Store α) (username : Option String) :
    ∃ rank, IsForest Folder.folderId (visibleUnder store username) rank := by
  obtain ⟨rank, hrank⟩ := store.acyclic
  refine ⟨rank, fun p q a ha b hb hkey => ?_, fun p => ?_, fun p a ha => ?_⟩
  · obtain ⟨ha, hp, -⟩ := mem_visibleUnder.1 ha
    obtain ⟨hb, hq, -⟩ := mem_visibleUnder.1 hb
    obtain rfl := List.inj_on_of_nodup_map store.nodup_folderId ha hb hkey
    exact ⟨Option.some_inj.1 (hp.symm.trans hq), rfl⟩
  · exact ((nodup_folders store).filter _).filter _
  · obtain ⟨ha, hp, -⟩ := mem_visibleUnder.1 ha
    exact hrank a ha p hp

end Tree

section Load

variable (pgiven pseen : Idset)

/-- The tables after some rows. -/
def addRows (t : Tables) (rows : List Folder) : Tables where
  existence := t.existence ++ rows.map Folder.folderId
  changes := t.changes ++ (rows.filter fun f => ! isKnown pgiven pseen f).map Folder.folderId
  lastCn := rows.foldl (fun cn f => max cn f.changeNumber) t.lastCn

variable {store username pgiven pseen} {t : Tables}

@[simp] lemma addRows_nil : addRows pgiven pseen t [] = t := by simp [addRows]

@[simp] lemma addRows_append (l m : List Folder) :
    addRows pgiven pseen (addRows pgiven pseen t l) m = addRows pgiven pseen t (l ++ m) := by
  simp [addRows]

lemma changes_subset_addRows (h : t.changes ⊆ t.existence) (rows : List Folder) :
    (addRows pgiven pseen t rows).changes ⊆ (addRows pgiven pseen t rows).existence := by
  intro fid hfid
  simp only [addRows, List.mem_append, List.mem_map, List.mem_filter] at hfid ⊢
  rcases hfid with hfid | ⟨f, ⟨hf, -⟩, rfl⟩
  · exact .inl (h hfid)
  · exact .inr ⟨f, hf, rfl⟩

lemma icsLoadRow_visible {f : Folder} {tmpList : List ℕ}
    (hv : checkVisible store username f.folderId) (hnew : f.folderId ∉ t.existence)
    (hsub : t.changes ⊆ t.existence) :
    icsLoadRow store username pgiven pseen (t, tmpList) f =
      some (addRows pgiven pseen t [f], tmpList ++ [f.folderId]) := by
  have hmax : (if f.changeNumber > t.lastCn then f.changeNumber else t.lastCn) =
      max t.lastCn f.changeNumber := by
    split_ifs <;> omega
  have hnew' : f.folderId ∉ t.changes := fun h => hnew (hsub h)
  simp only [icsLoadRow, hv, not_true_eq_false, if_false, insertKey, hnew, hnew', hmax]
  cases hk : isKnown pgiven pseen f <;> simp [addRows, hk]

lemma foldlM_icsLoadRow {rows : List Folder} {tmpList : List ℕ} (hsub : t.changes ⊆ t.existence)
    (hn : (t.existence ++ (rows.filter fun f => checkVisible store username f.folderId).map
      Folder.folderId).Nodup) :
    rows.foldlM (icsLoadRow store username pgiven pseen) (t, tmpList) =
      some (addRows pgiven pseen t (rows.filter fun f => checkVisible store username f.folderId),
        tmpList ++ (rows.filter fun f => checkVisible store username f.folderId).map
          Folder.folderId) := by
  induction rows generalizing t tmpList with
  | nil => simp
  | cons f rows ih =>
    by_cases hv : checkVisible store username f.folderId
    · rw [List.filter_cons_of_pos (by simpa using hv), List.map_cons] at hn
      have hnew : f.folderId ∉ t.existence := fun h =>
        (List.nodup_append.1 hn).2.2 _ h _ (by simp) rfl
      rw [List.foldlM_cons, icsLoadRow_visible hv hnew hsub, Option.bind_eq_bind,
        Option.bind_some, ih (changes_subset_addRows hsub [f]) (by simpa [addRows] using hn),
        List.filter_cons_of_pos (by simpa using hv), addRows_append]
      simp
    · rw [List.filter_cons_of_neg (by simpa using hv)] at hn ⊢
      rw [List.foldlM_cons, icsLoadRow, if_pos hv, Option.bind_eq_bind, Option.bind_some,
        ih hsub hn]

/-- **The load is the walk**: with fuel for the depth of the tree it succeeds, and adds the rows
of the walk to the tables. -/
lemma icsLoadFolderChanges_eq {rank : ℕ → ℕ}
    (hf : IsForest Folder.folderId (visibleUnder store username) rank) {n p : ℕ}
    (hdepth : store.folders.countP (fun f => rank p < rank f.folderId) ≤ n)
    (hsub : t.changes ⊆ t.existence)
    (hn : (t.existence ++ (walk Folder.folderId (visibleUnder store username) n p).map
      Folder.folderId).Nodup) :
    icsLoadFolderChanges store username pgiven pseen (n + 1) p t =
      some (addRows pgiven pseen t (walk Folder.folderId (visibleUnder store username) n p)) := by
  have hmem : ∀ p, ∀ f ∈ visibleUnder store username p, f ∈ store.folders := fun p f hf =>
    (mem_visibleUnder.1 hf).1
  induction n generalizing p t with
  | zero =>
    have hnil := hf.children_eq_nil (hmem p) (Nat.le_zero.1 hdepth)
    rw [icsLoadFolderChanges, foldlM_icsLoadRow hsub (by
      rw [← visibleUnder, hnil]
      simpa [walk] using hn), ← visibleUnder, hnil]
    simp [walk]
  | succ n ih =>
    rw [walk, List.map_append, ← List.append_assoc] at hn
    rw [icsLoadFolderChanges, foldlM_icsLoadRow hsub (List.nodup_append.1 hn).1, ← visibleUnder,
      List.nil_append, Option.bind_eq_bind, Option.bind_some, walk, ← addRows_append]
    -- one child after another
    suffices hchildren : ∀ (cs : List Folder) (t : Tables), t.changes ⊆ t.existence →
        (∀ c ∈ cs, c ∈ visibleUnder store username p) →
        (t.existence ++ (cs.flatMap fun c => walk Folder.folderId (visibleUnder store username) n
          c.folderId).map Folder.folderId).Nodup →
        (cs.map Folder.folderId).foldlM (fun t fidVal =>
          icsLoadFolderChanges store username pgiven pseen (n + 1) fidVal t) t =
          some (addRows pgiven pseen t (cs.flatMap fun c =>
            walk Folder.folderId (visibleUnder store username) n c.folderId)) from
      hchildren _ _ (changes_subset_addRows hsub _) (fun c hc => hc) (by simpa [addRows] using hn)
    intro cs
    induction cs with
    | nil => simp
    | cons c cs ihc =>
      intro t hsub hcs hn
      have hc := hcs c (by simp)
      have hlt := hf.countP_lt hc (hmem p c hc)
      rw [List.flatMap_cons, List.map_append, ← List.append_assoc] at hn
      rw [List.map_cons, List.foldlM_cons, ih (by omega) hsub (List.nodup_append.1 hn).1,
        Option.bind_eq_bind, Option.bind_some,
        ihc _ (changes_subset_addRows hsub _) (fun d hd => hcs d (by simp [hd]))
          (by simpa [addRows] using hn),
        List.flatMap_cons, addRows_append]

end Load

section Enumeration

lemma foldl_icsEnumHierarchyReplist (l : List ℕ) :
    l.foldl icsEnumHierarchyReplist [] = l.take 1024 := by
  suffices h : ∀ replids : List ℕ, replids.length ≤ 1024 →
      l.foldl icsEnumHierarchyReplist replids = replids ++ l.take (1024 - replids.length) by
    simpa using h [] (by simp)
  induction l with
  | nil => simp
  | cons r l ih =>
    intro replids hle
    rw [List.foldl_cons, icsEnumHierarchyReplist]
    split_ifs with hlt
    · obtain ⟨m, hm⟩ : ∃ m, 1024 - replids.length = m + 1 := ⟨1023 - replids.length, by omega⟩
      rw [ih _ (by simpa using hlt), hm, List.take_succ_cons, List.length_append,
        List.length_singleton, show 1024 - (replids.length + 1) = m by omega, List.append_assoc]
      rfl
    · rw [ih _ hle, show 1024 - replids.length = 0 by omega, List.take_zero, List.take_zero]

lemma foldl_icsEnumHierarchyIdset (existence eids l : List ℕ) :
    l.foldl (icsEnumHierarchyIdset existence) eids =
      eids ++ l.filter fun eid => eidToFidVal eid ∉ existence := by
  induction l generalizing eids with
  | nil => simp
  | cons eid l ih =>
    rw [List.foldl_cons, icsEnumHierarchyIdset, ih]
    split_ifs with h <;> simp [h]

lemma foldl_deleted (existence replids eids : List ℕ) (pgiven : Idset) :
    replids.foldl (fun eids replid =>
        (idsetEnumRepl pgiven replid).foldl (icsEnumHierarchyIdset existence) eids) eids =
      eids ++ (replids.flatMap (idsetEnumRepl pgiven)).filter fun eid =>
        eidToFidVal eid ∉ existence := by
  induction replids generalizing eids with
  | nil => simp
  | cons replid replids ih =>
    rw [List.foldl_cons, foldl_icsEnumHierarchyIdset, ih, List.flatMap_cons, List.filter_append,
      List.append_assoc]

lemma fidValToEid_eq {v : ℕ} (hv : v < 2 ^ 48) : fidValToEid v = ropUtilMakeEidEx 1 v := by
  have hand : v &&& 0xFF00000000000000 = 0 := by
    apply Nat.eq_of_testBit_eq
    intro i
    rw [Nat.testBit_and, Nat.zero_testBit]
    rcases Nat.lt_or_ge i 48 with hi | hi
    · have hlow : ∀ i < 48, Nat.testBit 0xFF00000000000000 i = false := by decide
      rw [hlow i hi, Bool.and_false]
    · rw [Nat.testBit_lt_two_pow (hv.trans_le (Nat.pow_le_pow_right (by norm_num) hi)),
        Bool.false_and]
  rw [fidValToEid, if_pos hand]

/-- Only an identifier of replica 1 is looked up by a key that a folder can have. -/
lemma eidToFidVal_makeEidEx {replid v : ℕ} (hr : 1 ≤ replid ∧ replid < 65536) (hv : v < 2 ^ 48) :
    (replid = 1 → eidToFidVal (ropUtilMakeEidEx replid v) = v) ∧
      (replid ≠ 1 → 2 ^ 48 ≤ eidToFidVal (ropUtilMakeEidEx replid v)) := by
  rw [eidToFidVal, ropUtilGetReplid_makeEidEx hr.2, ropUtilGetGcValue_makeEidEx hr.2 hv]
  refine ⟨fun h => if_pos h, fun h => ?_⟩
  rw [if_neg h]
  calc 2 ^ 48 ≤ replid <<< 48 := by rw [Nat.shiftLeft_eq]; omega
    _ ≤ v ||| replid <<< 48 := Nat.right_le_or

end Enumeration

/-- What a synchronization returns for the set of identifiers and of changes that the client has;
of the identifiers, those of the replicas `reported` count as deleted. -/
structure Exact (root : ℕ) (pgiven pseen : Idset) (reported : ℕ → Prop) (r : HierarchySync α) :
    Prop where
  given : ∀ eid, eid ∈ r.givenFids ↔
    ∃ f, Visible store username root f ∧ eid = ropUtilMakeEidEx 1 f.folderId
  changes : ∃ changes : List Folder,
    r.fldchgs = changes.map (fun f => fetchChange store f.folderId) ∧
    (∀ f, f ∈ changes ↔ Visible store username root f ∧
      ¬ (Holds pgiven 1 f.folderId ∧ Holds pseen 1 f.changeNumber)) ∧
    changes.Nodup ∧ changes.Pairwise fun a b => a.parentId ≠ some b.folderId
  deleted : ∀ eid, eid ∈ r.deletedFids ↔
    ∃ replid v, eid = ropUtilMakeEidEx replid v ∧ Holds pgiven replid v ∧ reported replid ∧
      ∀ f, Visible store username root f → eid ≠ ropUtilMakeEidEx 1 f.folderId

section Sync

variable {store username} {folderId : ℕ} {pgiven pseen : Idset}

/-- The rows that a synchronization visits, and what it makes of them. -/
lemma exmdbServerGetHierarchySync_eq (store : Store α) (username : Option String)
    (folderId : ℕ) (pgiven pseen : Idset) :
    ∃ rows : List Folder,
      (∀ f, f ∈ rows ↔ Visible store username (ropUtilGetGcValue folderId) f) ∧
      rows.Pairwise (fun a b => a.folderId ≠ b.folderId ∧ a.parentId ≠ some b.folderId) ∧
      exmdbServerGetHierarchySync store folderId username pgiven pseen = some {
        fldchgs := ((rows.filter fun f => ! isKnown pgiven pseen f).map Folder.folderId).map
          (fetchChange store)
        lastCn := if rows.foldl (fun cn f => max cn f.changeNumber) 0 ≠ 0 then
          ropUtilMakeEidEx 1 (rows.foldl (fun cn f => max cn f.changeNumber) 0) else 0
        givenFids := ((rows.map Folder.folderId).mergeSort (· ≥ ·)).map fidValToEid
        deletedFids := (((idsetEnumReplist pgiven).take 1024).flatMap (idsetEnumRepl pgiven)).filter
          fun eid => eidToFidVal eid ∉ rows.map Folder.folderId } := by
  obtain ⟨rank, hf⟩ := exists_isForest store username
  have hmem : ∀ p, ∀ f ∈ visibleUnder store username p, f ∈ store.folders := fun p f hf =>
    (mem_visibleUnder.1 hf).1
  have hpair := hf.walk_pairwise (n := store.folders.length) (k := ropUtilGetGcValue folderId)
  have hall : ∀ f, f ∈ walk Folder.folderId (visibleUnder store username) store.folders.length
      (ropUtilGetGcValue folderId) ↔ Visible store username (ropUtilGetGcValue folderId) f :=
    fun f => ⟨under_of_mem_walk, hf.mem_walk_of_under hmem List.countP_le_length⟩
  have hnodup : (([] : List ℕ) ++ (walk Folder.folderId (visibleUnder store username)
      store.folders.length (ropUtilGetGcValue folderId)).map Folder.folderId).Nodup :=
    List.pairwise_map.2 (hpair.imp fun h => h.1)
  refine ⟨_, hall, ?_, ?_⟩
  · refine hpair.imp_of_mem fun {a b} ha _ hab => ⟨hab.1, fun hp => hab.2 ?_⟩
    obtain ⟨p, -, ha⟩ := (hall a).1 ha
    obtain ⟨ha, -, hrest⟩ := mem_visibleUnder.1 ha
    exact mem_visibleUnder.2 ⟨ha, hp, hrest⟩
  · rw [exmdbServerGetHierarchySync, icsLoadFolderChanges_eq hf List.countP_le_length
      (List.nil_subset _) hnodup, Option.bind_eq_bind, Option.bind_some,
      foldl_icsEnumHierarchyReplist]
    dsimp only
    rw [foldl_deleted]
    rfl

variable {pstate : IcsState}

lemma exact_of_sync (store : Store α) (username : Option String) (folderId : ℕ)
    (hg : IsClientSet pgiven) (hs : IsClientSet pseen) :
    ∃ r, exmdbServerGetHierarchySync store folderId username pgiven pseen = some r ∧
      Exact store username (ropUtilGetGcValue folderId) pgiven pseen
        (· ∈ (idsetEnumReplist pgiven).take 1024) r := by
  obtain ⟨rows, hrows, hpair, hsync⟩ :=
    exmdbServerGetHierarchySync_eq store username folderId pgiven pseen
  have hid : ∀ f ∈ rows, f.folderId < 2 ^ 48 := fun f hf =>
    (store.folderId_mem f ((hrows f).1 hf).mem).2
  have hknown : ∀ f ∈ rows, isKnown pgiven pseen f = true ↔
      Holds pgiven 1 f.folderId ∧ Holds pseen 1 f.changeNumber := by
    intro f hf
    rw [isKnown, Bool.and_eq_true, idsetHint_makeEidEx hg.serialize (hid f hf),
      idsetHint_makeEidEx hs.serialize (store.changeNumber_mem f ((hrows f).1 hf).mem).2]
  refine ⟨_, hsync, fun eid => ?_, ⟨rows.filter fun f => ! isKnown pgiven pseen f, ?_, ?_, ?_, ?_⟩,
    fun eid => ?_⟩
  · simp only [List.mem_map, List.mem_mergeSort]
    constructor
    · rintro ⟨v, ⟨f, hf, rfl⟩, rfl⟩
      exact ⟨f, (hrows f).1 hf, fidValToEid_eq (hid f hf)⟩
    · rintro ⟨f, hf, rfl⟩
      have hf := (hrows f).2 hf
      exact ⟨_, ⟨f, hf, rfl⟩, fidValToEid_eq (hid f hf)⟩
  · rw [List.map_map]
    rfl
  · intro f
    rw [List.mem_filter, hrows]
    refine and_congr_right fun hf => ?_
    rw [← hknown f ((hrows f).2 hf), Bool.not_eq_true', Bool.not_eq_true]
  · have hnodup : rows.Nodup := hpair.imp fun h hab => h.1 (congrArg Folder.folderId hab)
    exact hnodup.filter _
  · exact (hpair.imp fun h => h.2).filter _
  · simp only [List.mem_filter, List.mem_flatMap, mem_idsetEnumRepl, decide_eq_true_eq]
    constructor
    · rintro ⟨⟨replid, hr, v, hv, rfl⟩, hnew⟩
      refine ⟨replid, v, rfl, hv, hr, fun f hf heq => hnew ?_⟩
      have hf := (hrows f).2 hf
      obtain ⟨rfl, rfl⟩ := ropUtilMakeEidEx_inj (hg.replid_of_holds hv).2 (by norm_num)
        (hg.value_of_holds hv) (hid f hf) heq
      rw [(eidToFidVal_makeEidEx (by norm_num) (hid f hf)).1 rfl]
      exact List.mem_map_of_mem hf
    · rintro ⟨replid, v, rfl, hv, hr, hnew⟩
      refine ⟨⟨replid, hr, v, hv, rfl⟩, fun hmem => ?_⟩
      obtain ⟨f, hf, heq⟩ := List.mem_map.1 hmem
      obtain ⟨h1, h2⟩ := eidToFidVal_makeEidEx (hg.replid_of_holds hv) (hg.value_of_holds hv)
      have hlt := hid f hf
      by_cases hone : replid = 1
      · have hv' := h1 hone
        subst hone
        exact hnew f ((hrows f).1 hf) (by rw [heq, hv'])
      · have := h2 hone
        omega

/-- The state left by a synchronization: it is one that a client can have, it gives the visible
folders and no others, and it has seen all their changes. -/
lemma icsdownctxObjectMakeHierarchy_spec (store : Store α) (username : Option String)
    (folderId : ℕ) (hg : IsClientSet pstate.pgiven) (hs : IsClientSet pstate.pseen) :
    ∃ r pstate', icsdownctxObjectMakeHierarchy store folderId username pstate = some (r, pstate') ∧
      Exact store username (ropUtilGetGcValue folderId) pstate.pgiven pstate.pseen
        (· ∈ (idsetEnumReplist pstate.pgiven).take 1024) r ∧
      IsClientSet pstate'.pgiven ∧ IsClientSet pstate'.pseen ∧
      (∀ replid v, Holds pstate'.pgiven replid v ↔
        replid = 1 ∧ ∃ f, Visible store username (ropUtilGetGcValue folderId) f ∧ v = f.folderId) ∧
      ∀ f, Visible store username (ropUtilGetGcValue folderId) f →
        Holds pstate'.pseen 1 f.changeNumber := by
  obtain ⟨rows, hrows, -, hsync⟩ :=
    exmdbServerGetHierarchySync_eq store username folderId pstate.pgiven pstate.pseen
  obtain ⟨r, hr, hexact⟩ := exact_of_sync store username folderId hg hs
  obtain rfl := Option.some_inj.1 (hsync.symm.trans hr)
  have hmem : ∀ f ∈ rows, f ∈ store.folders := fun f hf => ((hrows f).1 hf).mem
  -- the identifiers given
  have hvs : ∀ v ∈ (rows.map Folder.folderId).mergeSort (· ≥ ·), IsValue v := by
    intro v hv
    obtain ⟨f, hf, rfl⟩ := List.mem_map.1 (List.mem_mergeSort.1 hv)
    exact store.folderId_mem f (hmem f hf)
  have heids : ((rows.map Folder.folderId).mergeSort (· ≥ ·)).map fidValToEid =
      ((rows.map Folder.folderId).mergeSort (· ≥ ·)).map (ropUtilMakeEidEx 1) :=
    List.map_congr_left fun v hv => fidValToEid_eq (hvs v hv).2
  obtain ⟨pgiven', hgiven, hclient, -, -, hholds⟩ := appendGiven_spec hg.serialize _ hvs
  -- the last change number
  have hle := (le_foldl_max Folder.changeNumber rows 0).2
  have hlt : rows.foldl (fun cn f => max cn f.changeNumber) 0 < 2 ^ 48 :=
    foldl_max_lt Folder.changeNumber (by norm_num) fun f hf => (store.changeNumber_mem f (hmem f hf)).2
  generalize rows.foldl (fun cn f => max cn f.changeNumber) 0 = last at *
  have hgiven' : ∀ replid v, Holds pgiven' replid v ↔
      replid = 1 ∧ ∃ f, Visible store username (ropUtilGetGcValue folderId) f ∧ v = f.folderId := by
    intro replid v
    simp only [hholds, List.mem_mergeSort, List.mem_map, hrows, eq_comm (a := v)]
  by_cases h0 : last = 0
  · -- no folder is visible
    have hnone : ∀ f, ¬ Visible store username (ropUtilGetGcValue folderId) f := by
      intro f hf
      have h1 := hle f ((hrows f).2 hf)
      have h2 := (store.changeNumber_mem f hf.mem).1
      omega
    refine ⟨_, { pstate with pgiven := pgiven' }, ?_, hexact, hclient, hs, hgiven',
      fun f hf => absurd hf (hnone f)⟩
    rw [icsdownctxObjectMakeHierarchy, hsync, heids]
    simp [h0, hgiven]
  · obtain ⟨pseen', hseen, hclient', hholds'⟩ :=
      clearAppendRange_spec hs.serialize (Nat.pos_of_ne_zero h0) hlt
    refine ⟨_, { pstate with pgiven := pgiven', pseen := pseen' }, ?_, hexact, hclient, hclient',
      hgiven', fun f hf => ?_⟩
    · have hne : ropUtilMakeEidEx 1 last ≠ 0 := by
        rw [ropUtilMakeEidEx_eq (by norm_num)]
        omega
      rw [icsdownctxObjectMakeHierarchy, hsync, heids]
      simp [h0, hgiven, hne, ropUtilGetGcValue_makeEidEx (show 1 < 65536 by norm_num) hlt, hseen]
    · exact (hholds' _).2 ⟨(store.changeNumber_mem f hf.mem).1, hle f ((hrows f).2 hf)⟩

/-- **Hierarchy synchronization.** It gives the visible folders, reports as changed those that the
client does not know in their last change, a parent before its children, and as deleted the
identifiers of the first 1024 replicas of the client that are not visible; done again with the
state it leaves, it reports no change and no deletion. -/
theorem hierarchySync_exact (store : Store α) (username : Option String) (folderId : ℕ)
    (pstate : IcsState) (hg : IsClientSet pstate.pgiven) (hs : IsClientSet pstate.pseen) :
    ∃ r pstate', icsdownctxObjectMakeHierarchy store folderId username pstate = some (r, pstate') ∧
      Exact store username (ropUtilGetGcValue folderId) pstate.pgiven pstate.pseen
        (· ∈ (idsetEnumReplist pstate.pgiven).take 1024) r ∧
      ∃ r' pstate'', icsdownctxObjectMakeHierarchy store folderId username pstate' =
        some (r', pstate'') ∧ r'.fldchgs = [] ∧ r'.deletedFids = [] := by
  obtain ⟨r, pstate', hsync, hexact, hg', hs', hgiven, hseen⟩ :=
    icsdownctxObjectMakeHierarchy_spec store username folderId hg hs
  obtain ⟨r', pstate'', hsync', hexact', -⟩ :=
    icsdownctxObjectMakeHierarchy_spec store username folderId hg' hs'
  refine ⟨r, pstate', hsync, hexact, r', pstate'', hsync', ?_, ?_⟩
  · obtain ⟨changes, heq, hchanges, -⟩ := hexact'.changes
    suffices h : changes = [] by rw [heq, h, List.map_nil]
    rw [List.eq_nil_iff_forall_not_mem]
    intro f hf
    obtain ⟨hv, hnew⟩ := (hchanges f).1 hf
    exact hnew ⟨(hgiven 1 _).2 ⟨rfl, f, hv, rfl⟩, hseen f hv⟩
  · rw [List.eq_nil_iff_forall_not_mem]
    intro eid heid
    obtain ⟨replid, v, rfl, hv, -, hnew⟩ := (hexact'.deleted eid).1 heid
    obtain ⟨rfl, f, hf, rfl⟩ := (hgiven replid v).1 hv
    exact hnew f hf rfl

lemma sync_of_make {store : Store α} {pstate' : IcsState} {r : HierarchySync α}
    (h : icsdownctxObjectMakeHierarchy store folderId username pstate = some (r, pstate')) :
    exmdbServerGetHierarchySync store folderId username pstate.pgiven pstate.pseen = some r := by
  rw [icsdownctxObjectMakeHierarchy, Option.bind_eq_bind, Option.bind_eq_some_iff] at h
  obtain ⟨r', hr', h⟩ := h
  rw [Option.bind_eq_bind, Option.bind_eq_some_iff] at h
  obtain ⟨_, -, h⟩ := h
  dsimp only at h
  split_ifs at h
  · obtain ⟨_, -, h⟩ := Option.bind_eq_some_iff.1 h
    cases h
    exact hr'
  · cases h
    exact hr'

/-- Folder 6 is hidden from the user, folder 7 lies under folder 5. -/
def sampleStore : Store (ℕ × List ℕ) where
  isPrivate := true
  folders := [⟨5, some 1, 3, false⟩, ⟨6, some 1, 9, false⟩, ⟨7, some 5, 4, false⟩]
  permissions := [⟨6, "user", 0⟩]
  anonymousPermission := none
  defaultPermission := some PERMISSION_READANY
  checkMlistInclude _ _ := false
  getProptags _ := [PROP_TAG_HASRULES]
  getProperties fid tags := (fid, tags)
  nodup_folderId := by decide
  acyclic := ⟨id, by decide⟩
  folderId_mem := by decide
  changeNumber_mem := by decide

theorem hierarchySync_exact_sample :
    ∃ r pstate', icsdownctxObjectMakeHierarchy sampleStore (ropUtilMakeEidEx 1 1) (some "user")
        ⟨⟨true, .guid, [⟨1, [⟨5, 6⟩]⟩]⟩, ⟨true, .guid, [⟨1, [⟨1, 3⟩]⟩]⟩, ⟨true, .guid, []⟩,
          ⟨true, .guid, []⟩⟩ = some (r, pstate') ∧
      Exact sampleStore (some "user") (ropUtilGetGcValue (ropUtilMakeEidEx 1 1))
        ⟨true, .guid, [⟨1, [⟨5, 6⟩]⟩]⟩ ⟨true, .guid, [⟨1, [⟨1, 3⟩]⟩]⟩
        (· ∈ (idsetEnumReplist ⟨true, .guid, [⟨1, [⟨5, 6⟩]⟩]⟩).take 1024) r ∧
      ∃ r' pstate'', icsdownctxObjectMakeHierarchy sampleStore (ropUtilMakeEidEx 1 1)
        (some "user") pstate' = some (r', pstate'') ∧ r'.fldchgs = [] ∧ r'.deletedFids = [] :=
  hierarchySync_exact sampleStore (some "user") (ropUtilMakeEidEx 1 1) _
    ⟨rfl, by simp, by simp⟩ ⟨rfl, by simp, by simp⟩

/-- The identifiers of the replica after the first 1024 are passed over. -/
theorem not_hierarchySync_exact :
    ¬ ∀ (store : Store (ℕ × List ℕ)) (username : Option String) (folderId : ℕ) (pstate : IcsState),
      IsClientSet pstate.pgiven → IsClientSet pstate.pseen →
      ∃ r pstate', icsdownctxObjectMakeHierarchy store folderId username pstate =
          some (r, pstate') ∧
        Exact store username (ropUtilGetGcValue folderId) pstate.pgiven pstate.pseen
          (fun _ => True) r ∧
        ∃ r' pstate'', icsdownctxObjectMakeHierarchy store folderId username pstate' =
          some (r', pstate'') ∧ r'.fldchgs = [] ∧ r'.deletedFids = [] := by
  intro h
  let pgiven : Idset := ⟨true, .guid, (List.range' 1 1025).map fun i => ⟨i, [⟨7, 7⟩]⟩⟩
  have hlist : idsetEnumReplist pgiven = List.range' 1 1024 ++ [1025] := by
    simp only [idsetEnumReplist, pgiven, List.map_map, Function.comp_def, List.map_id']
    exact List.range'_concat
  have hg : IsClientSet pgiven := by
    refine ⟨rfl, fun n hn => ?_, fun n hn r hr => ?_⟩
    · obtain ⟨i, hi, rfl⟩ := List.mem_map.1 hn
      rw [List.mem_range'_1] at hi
      simp only
      omega
    · obtain ⟨i, -, rfl⟩ := List.mem_map.1 hn
      rw [List.mem_singleton.1 hr]
      norm_num
  have hs : IsClientSet ⟨true, .guid, []⟩ := ⟨rfl, by simp, by simp⟩
  have hlast : Holds pgiven 1025 7 := by
    have hmem : (⟨1025, [⟨7, 7⟩]⟩ : ReplidNode) ∈ pgiven.replList :=
      List.mem_map.2 ⟨1025, by simp, rfl⟩
    have hnodup : (pgiven.replList.map ReplidNode.replid).Nodup := by
      rw [← idsetEnumReplist, hlist, show [1025] = [1 + 1 * 1024] from rfl, ← List.range'_concat]
      exact List.nodup_range'
    rw [Holds, rangeListOf_of_mem hnodup hmem]
    simp [Range.Has]
  obtain ⟨r, pstate', hsync, hall, -⟩ :=
    h sampleStore none 0 ⟨pgiven, ⟨true, .guid, []⟩, ⟨true, .guid, []⟩, ⟨true, .guid, []⟩⟩ hg hs
  obtain ⟨r', hsync', hfirst⟩ := exact_of_sync sampleStore none 0 hg hs
  -- the call is the same one, and the two statements differ on the last replica
  obtain rfl := Option.some_inj.1 ((sync_of_make hsync).symm.trans hsync')
  have hdel := (hall.deleted (ropUtilMakeEidEx 1025 7)).2 ⟨1025, 7, rfl, hlast, trivial, fun f hf heq =>
    absurd (ropUtilMakeEidEx_inj (by norm_num) (by norm_num) (by norm_num)
      (sampleStore.folderId_mem f hf.mem).2 heq).1 (by norm_num)⟩
  obtain ⟨replid, v, heq, hv, hmem, -⟩ := (hfirst.deleted _).1 hdel
  obtain ⟨rfl, -⟩ := ropUtilMakeEidEx_inj (by norm_num) (hg.replid_of_holds hv).2 (by norm_num)
    (hg.value_of_holds hv) heq
  rw [hlist, List.take_left' (by simp)] at hmem
  simp at hmem

end Sync

end SteepSystem.Ics.Hierarchy
