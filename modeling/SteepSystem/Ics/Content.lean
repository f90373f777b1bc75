import SteepSystem.Ics.ContentModel

/-!
What a content synchronization returns, from a closed form of the tables it builds, and what
it returns when it is done again with the state it has left.
-/

namespace SteepSystem.Ics.Content

open SteepSystem.Lib.Ranges SteepSystem.RopUtil SteepSystem.Idsets.Model SteepSystem.Idsets.Run
open SteepSystem.Ics.Sets SteepSystem.Ics.ContentModel

section Load

variable (store : Store) (q : ContentRequest) (cache : IdsetCache)

/-- A message whose read state goes to the client: not changed, but for its read state. -/
def reportsRead (m : Message) : Bool :=
  isSeen q cache m && ! m.isAssociated &&
    match q.pread with
    | none => false
    | some pread => ! (readCnOf store q m = 0 ∨ idsetHint pread (ropUtilMakeEidEx 1 (readCnOf store q m)))

/-- The tables after some rows that the loop goes on with. -/
def addRows (t : Tables) (rows : List Message) : Tables where
  existence := t.existence ++ rows.map Message.messageId
  changes := t.changes ++ (rows.filter fun m => ! isSeen q cache m).map (changeRow store q)
  reads := t.reads ++ (rows.filter (reportsRead store q cache)).map
    fun m => (m.messageId, readStateOf store q m)
  lastCn := rows.foldl (fun cn m => max cn m.changeNumber) t.lastCn
  lastReadcn := rows.foldl (fun cn m => max cn (readCnOf store q m)) t.lastReadcn
  counts := (rows.filter fun m => ! isSeen q cache m).foldl countRow t.counts

/-- The keys of the other tables are keys of `existence`. -/
structure KeysExist (t : Tables) : Prop where
  changes : t.changes.map Prod.fst ⊆ t.existence
  reads : t.reads.map Prod.fst ⊆ t.existence

variable {store q cache} {t : Tables}

@[simp] lemma addRows_nil : addRows store q cache t [] = t := by simp [addRows]

lemma addRows_cons (m : Message) (rows : List Message) :
    addRows store q cache (addRows store q cache t [m]) rows = addRows store q cache t (m :: rows) := by
  simp only [addRows, List.append_assoc, List.map_cons, List.map_nil, List.singleton_append,
    ← List.map_append, ← List.filter_append, List.foldl_cons, List.foldl_nil, ← List.foldl_append]

@[simp] lemma changeRow_fst (m : Message) : (changeRow store q m).1 = m.messageId := by
  unfold changeRow
  split_ifs <;> rfl

lemma KeysExist.addRows (h : KeysExist t) (rows : List Message) :
    KeysExist (addRows store q cache t rows) := by
  constructor
  all_goals
    intro mid hmid
    simp only [Content.addRows, List.map_append, List.map_map, List.mem_append, List.mem_map,
      List.mem_filter, Function.comp_apply, changeRow_fst] at hmid ⊢
  · rcases hmid with hmid | ⟨m, ⟨hm, -⟩, rfl⟩
    · exact .inl (h.changes (List.mem_map.2 hmid))
    · exact .inr ⟨m, hm, rfl⟩
  · rcases hmid with hmid | ⟨m, ⟨hm, -⟩, rfl⟩
    · exact .inl (h.reads (List.mem_map.2 hmid))
    · exact .inr ⟨m, hm, rfl⟩

lemma loadRow_wanted {m : Message} (hw : isWanted q m = true) (hnew : m.messageId ∉ t.existence)
    (h : KeysExist t) : loadRow store q cache t m = some (addRows store q cache t [m]) := by
  have hc : m.messageId ∉ t.changes.map Prod.fst := fun hm => hnew (h.changes hm)
  have hr : m.messageId ∉ t.reads.map Prod.fst := fun hm => hnew (h.reads hm)
  have hcn : (if m.changeNumber > t.lastCn then m.changeNumber else t.lastCn) =
      max t.lastCn m.changeNumber := by split_ifs <;> omega
  have hrcn : (if readCnOf store q m > t.lastReadcn then readCnOf store q m else t.lastReadcn) =
      max t.lastReadcn (readCnOf store q m) := by split_ifs <;> omega
  rw [loadRow, if_neg (by simp [hw]), insertKey, if_neg hnew, Option.bind_eq_bind,
    Option.bind_some]
  dsimp only
  rw [hcn, hrcn]
  by_cases hs : isSeen q cache m = true
  · rw [if_pos hs]
    by_cases ha : m.isAssociated = true
    · simp [addRows, reportsRead, hs, ha]
    · rw [if_neg ha]
      rcases hp : q.pread with _ | pread
      · simp [addRows, reportsRead, hs, hp]
      · by_cases hk : readCnOf store q m = 0 ∨
          idsetHint pread (ropUtilMakeEidEx 1 (readCnOf store q m)) = true
        · simp [addRows, reportsRead, hs, hp, hk]
        · simp [addRows, reportsRead, hs, ha, hp, hk, hr]
  · rw [if_neg hs, if_neg hc]
    simp [addRows, reportsRead, hs]

lemma foldlM_loadRow {rows : List Message} (h : KeysExist t)
    (hn : (t.existence ++ (rows.filter (isWanted q)).map Message.messageId).Nodup) :
    rows.foldlM (loadRow store q cache) t =
      some (addRows store q cache t (rows.filter (isWanted q))) := by
  induction rows generalizing t with
  | nil => simp
  | cons m rows ih =>
    by_cases hw : isWanted q m = true
    · rw [List.filter_cons_of_pos hw, List.map_cons] at hn
      have hnew : m.messageId ∉ t.existence := fun hm =>
        (List.nodup_append.1 hn).2.2 _ hm _ (by simp) rfl
      rw [List.foldlM_cons, loadRow_wanted hw hnew h, Option.bind_eq_bind, Option.bind_some,
        ih (h.addRows [m]) (by simpa [addRows] using hn), List.filter_cons_of_pos hw, addRows_cons]
    · rw [List.filter_cons_of_neg hw] at hn ⊢
      rw [List.foldlM_cons, loadRow, if_pos hw, Option.bind_eq_bind, Option.bind_some, ih h hn]

lemma mem_sortChanges {l : List (ℕ × ℤ × ℤ)} {row : ℕ × ℤ × ℤ} :
    row ∈ sortChanges q l ↔ row ∈ l := by
  unfold sortChanges
  split_ifs <;> exact List.mem_mergeSort

/-- The two outcomes for an identifier of the client that is not in scope. -/
lemma foldl_icsEnumContentIdset (existence : List ℕ) (l : List ℕ) (acc : List ℕ × List ℕ) :
    l.foldl (icsEnumContentIdset store existence) acc =
      (acc.1 ++ l.filter fun eid => ropUtilGetGcValue eid ∉ existence ∧
          ¬ ∃ m ∈ store.messages, m.messageId = ropUtilGetGcValue eid,
        acc.2 ++ l.filter fun eid => ropUtilGetGcValue eid ∉ existence ∧
          ∃ m ∈ store.messages, m.messageId = ropUtilGetGcValue eid) := by
  induction l generalizing acc with
  | nil => simp
  | cons eid l ih =>
    rw [List.foldl_cons, ih, icsEnumContentIdset]
    split_ifs with h1 h2
    · simp [h1]
    · simp [h1, h2]
    · simp only [List.filter_cons, h1, h2, not_false_eq_true, and_self, and_false,
        decide_true, decide_false, if_true, Bool.false_eq_true, if_false,
        List.append_assoc, List.singleton_append]

end Load

/-- The rows that a synchronization goes on with. -/
def rowsOf (store : Store) (q : ContentRequest) : List Message :=
  (store.messagesIn (ropUtilGetGcValue q.folderId)).filter (isWanted q)

section Tables

variable {store : Store} {q : ContentRequest} {cache : IdsetCache} {rows : List Message} {eid : ℕ}

lemma exmdbServerGetContentSync_eq (hc : icsInitIdsetCache q.pgiven = some cache) :
    exmdbServerGetContentSync store q =
      some (contentSyncOf store q cache (addRows store q cache .init (rowsOf store q))) := by
  have hnodup : (Tables.init.existence ++
      ((store.messagesIn (ropUtilGetGcValue q.folderId)).filter (isWanted q)).map
        Message.messageId).Nodup :=
    store.nodup_messageId.sublist ((List.filter_sublist.trans List.filter_sublist).map _)
  rw [exmdbServerGetContentSync, hc, Option.bind_eq_bind, Option.bind_some,
    foldlM_loadRow ⟨List.nil_subset _, List.nil_subset _⟩ hnodup]
  rfl

lemma mem_mids {v : ℕ} :
    v ∈ (sortChanges q (addRows store q cache .init rows).changes).map Prod.fst ↔
      ∃ m ∈ rows, isSeen q cache m = false ∧ v = m.messageId := by
  simp only [addRows, Tables.init, List.nil_append, List.mem_map, mem_sortChanges, List.mem_filter,
    Bool.not_eq_true']
  constructor
  · rintro ⟨_, ⟨m, ⟨hm, hs⟩, rfl⟩, rfl⟩
    exact ⟨m, hm, hs, changeRow_fst m⟩
  · rintro ⟨m, hm, hs, rfl⟩
    exact ⟨_, ⟨m, ⟨hm, hs⟩, rfl⟩, changeRow_fst m⟩

lemma mem_chgMids : eid ∈ (contentSyncOf store q cache (addRows store q cache .init rows)).chgMids ↔
    ∃ m ∈ rows, isSeen q cache m = false ∧ eid = ropUtilMakeEidEx 1 m.messageId := by
  rw [contentSyncOf, List.mem_map]
  constructor
  · rintro ⟨v, hv, rfl⟩
    obtain ⟨m, hm, hs, rfl⟩ := mem_mids.1 hv
    exact ⟨m, hm, hs, rfl⟩
  · rintro ⟨m, hm, hs, rfl⟩
    exact ⟨_, mem_mids.2 ⟨m, hm, hs, rfl⟩, rfl⟩

lemma mem_updatedMids :
    eid ∈ (contentSyncOf store q cache (addRows store q cache .init rows)).updatedMids ↔
      ∃ m ∈ rows, isSeen q cache m = false ∧ icsHintIdsetCache cache m.messageId = true ∧
        eid = ropUtilMakeEidEx 1 m.messageId := by
  simp only [contentSyncOf, List.mem_map, List.mem_filter]
  constructor
  · rintro ⟨v, ⟨hv, hh⟩, rfl⟩
    obtain ⟨m, hm, hs, rfl⟩ := mem_mids.1 (List.mem_map.2 hv)
    exact ⟨m, hm, hs, hh, rfl⟩
  · rintro ⟨m, hm, hs, hh, rfl⟩
    exact ⟨_, ⟨List.mem_map.1 (mem_mids.2 ⟨m, hm, hs, rfl⟩), hh⟩, rfl⟩

lemma mem_gone :
    (eid ∈ (contentSyncOf store q cache (addRows store q cache .init rows)).deletedMids ↔
      eid ∈ idsetEnumRepl q.pgiven 1 ∧ ropUtilGetGcValue eid ∉ rows.map Message.messageId ∧
        ¬ ∃ m ∈ store.messages, m.messageId = ropUtilGetGcValue eid) ∧
    (eid ∈ (contentSyncOf store q cache (addRows store q cache .init rows)).nolongerMids ↔
      eid ∈ idsetEnumRepl q.pgiven 1 ∧ ropUtilGetGcValue eid ∉ rows.map Message.messageId ∧
        ∃ m ∈ store.messages, m.messageId = ropUtilGetGcValue eid) := by
  simp only [contentSyncOf, foldl_icsEnumContentIdset, List.nil_append, List.mem_filter,
    decide_eq_true_eq, addRows, Tables.init, and_self]

lemma mem_reads {p : ℕ → Bool} :
    eid ∈ (((addRows store q cache .init rows).reads.mergeSort fun a b => a.1 ≤ b.1).filter
        fun row => p row.2).map (fun row => ropUtilMakeEidEx 1 row.1) ↔
      ∃ m ∈ rows, reportsRead store q cache m = true ∧ p (readStateOf store q m) = true ∧
        eid = ropUtilMakeEidEx 1 m.messageId := by
  simp only [List.mem_map, List.mem_filter, List.mem_mergeSort, addRows, Tables.init,
    List.nil_append]
  constructor
  · rintro ⟨_, ⟨⟨m, ⟨hm, hr⟩, rfl⟩, hp⟩, rfl⟩
    exact ⟨m, hm, hr, hp, rfl⟩
  · rintro ⟨m, hm, hr, hp, rfl⟩
    exact ⟨_, ⟨⟨m, ⟨hm, hr⟩, rfl⟩, hp⟩, rfl⟩

end Tables

section Sync

variable (store : Store) (folderId : ℕ) (username : String) (syncFlags extraFlags : ℕ)
  (prestriction : Option (ℕ → Bool)) (pstate : IcsState)

/-- The messages of the folder that the flags and the restriction ask for. -/
def InScope (m : Message) : Prop :=
  m ∈ store.messages ∧ m.parentFid = some (ropUtilGetGcValue folderId) ∧
    (store.isPrivate ∨ ¬ m.isDeleted) ∧
    syncFlags &&& (if m.isAssociated then SYNC_FLAG_FAI else SYNC_FLAG_NORMAL) ≠ 0 ∧
    ∀ p ∈ prestriction, p m.messageId

/-- The client has the message, and has seen its last change. -/
def Known (m : Message) : Prop :=
  Holds pstate.pgiven 1 m.messageId ∧
    Holds (if m.isAssociated then pstate.pseenFai else pstate.pseen) 1 m.changeNumber

/-- A known message whose read state has changed since. -/
def ReadChanged (m : Message) : Prop :=
  Known pstate m ∧ ¬ m.isAssociated ∧ syncFlags &&& SYNC_FLAG_READSTATE ≠ 0 ∧
    ∃ cn ≠ 0, cn = readCnOf store
      (contentRequest folderId username syncFlags extraFlags prestriction pstate) m ∧
      ¬ Holds pstate.pread 1 cn

/-- What a synchronization returns; of the client's identifiers, those of the replicas `counted`
count as gone when they are not in scope. -/
structure Exact (counted : ℕ → Prop) (r : ContentSync) : Prop where
  given : ∀ eid, eid ∈ r.givenMids ↔ ∃ m, InScope store folderId syncFlags prestriction m ∧
    eid = ropUtilMakeEidEx 1 m.messageId
  changed : ∀ eid, eid ∈ r.chgMids ↔ ∃ m, InScope store folderId syncFlags prestriction m ∧
    ¬ Known pstate m ∧ eid = ropUtilMakeEidEx 1 m.messageId
  updated : ∀ eid, eid ∈ r.updatedMids ↔ ∃ m, InScope store folderId syncFlags prestriction m ∧
    ¬ Known pstate m ∧ Holds pstate.pgiven 1 m.messageId ∧ eid = ropUtilMakeEidEx 1 m.messageId
  gone : ∀ eid, eid ∈ r.deletedMids ∨ eid ∈ r.nolongerMids ↔
    ∃ replid v, eid = ropUtilMakeEidEx replid v ∧ Holds pstate.pgiven replid v ∧ counted replid ∧
      ∀ m, InScope store folderId syncFlags prestriction m → eid ≠ ropUtilMakeEidEx 1 m.messageId
  deleted : ∀ eid ∈ r.deletedMids, ∀ m ∈ store.messages, eid ≠ ropUtilMakeEidEx 1 m.messageId
  nolonger : ∀ eid ∈ r.nolongerMids, ∃ m ∈ store.messages, eid = ropUtilMakeEidEx 1 m.messageId
  read : ∀ eid, eid ∈ r.readMids ↔ ∃ m, InScope store folderId syncFlags prestriction m ∧
    ReadChanged store folderId username syncFlags extraFlags prestriction pstate m ∧
    readStateOf store (contentRequest folderId username syncFlags extraFlags prestriction pstate) m
      ≠ 0 ∧ eid = ropUtilMakeEidEx 1 m.messageId
  unread : ∀ eid, eid ∈ r.unreadMids ↔ ∃ m, InScope store folderId syncFlags prestriction m ∧
    ReadChanged store folderId username syncFlags extraFlags prestriction pstate m ∧
    readStateOf store (contentRequest folderId username syncFlags extraFlags prestriction pstate) m
      = 0 ∧ eid = ropUtilMakeEidEx 1 m.messageId

variable {store folderId username syncFlags extraFlags prestriction pstate} {cache : IdsetCache}
  {m : Message}

lemma mem_messagesIn {fidVal : ℕ} : m ∈ store.messagesIn fidVal ↔
    m ∈ store.messages ∧ m.parentFid = some fidVal ∧ (store.isPrivate ∨ ¬ m.isDeleted) := by
  simp [Store.messagesIn]

lemma mem_rowsOf :
    m ∈ rowsOf store (contentRequest folderId username syncFlags extraFlags prestriction pstate) ↔
      InScope store folderId syncFlags prestriction m := by
  rw [rowsOf, List.mem_filter, mem_messagesIn, InScope, isWanted, Bool.and_eq_true, and_assoc,
    and_assoc]
  refine and_congr_right fun _ => and_congr_right fun _ => and_congr_right fun _ =>
    and_congr ?_ (by cases prestriction <;> simp [contentRequest])
  rw [contentRequest]
  by_cases hn : syncFlags &&& SYNC_FLAG_NORMAL = 0 <;>
    by_cases hf : syncFlags &&& SYNC_FLAG_FAI = 0 <;>
    cases ha : m.isAssociated <;> simp [hn, hf]

lemma InScope.mem (h : InScope store folderId syncFlags prestriction m) : m ∈ store.messages := h.1

lemma isSeen_iff (h : pstate.IsClientState) (hc : icsInitIdsetCache pstate.pgiven = some cache)
    (hm : InScope store folderId syncFlags prestriction m) :
    isSeen (contentRequest folderId username syncFlags extraFlags prestriction pstate) cache m = true ↔
      Known pstate m := by
  have hcn := (store.changeNumber_mem m hm.mem).2
  obtain ⟨-, -, -, hflag, -⟩ := hm
  rw [isSeen, Bool.and_eq_true, icsHintIdsetCache_iff hc, Known]
  refine and_congr_right fun _ => ?_
  cases ha : m.isAssociated
  · simp only [ha, Bool.false_eq_true, if_false] at hflag ⊢
    simp only [contentRequest, if_pos hflag]
    exact idsetHint_makeEidEx h.pseen.serialize hcn
  · simp only [ha, if_true] at hflag ⊢
    simp only [contentRequest, if_pos hflag]
    exact idsetHint_makeEidEx h.pseenFai.serialize hcn

lemma readCnOf_lt (q : ContentRequest) (hm : m ∈ store.messages) :
    readCnOf store q m < 2 ^ 48 := by
  rw [readCnOf]
  split_ifs with h1 h2
  · rcases hcn : m.readCn with _ | cn
    · norm_num
    · exact (store.readCn_mem m hm cn hcn).2
  · norm_num
  · rcases hrow : store.readCns.find? _ with _ | row
    · norm_num
    · exact (store.readCns_mem row (List.mem_of_find?_eq_some hrow)).2

lemma reportsRead_iff (h : pstate.IsClientState) (hc : icsInitIdsetCache pstate.pgiven = some cache)
    (hm : InScope store folderId syncFlags prestriction m) :
    reportsRead store (contentRequest folderId username syncFlags extraFlags prestriction pstate)
        cache m = true ↔
      ReadChanged store folderId username syncFlags extraFlags prestriction pstate m := by
  have hlt := readCnOf_lt (contentRequest folderId username syncFlags extraFlags prestriction pstate)
    hm.mem
  rw [reportsRead, Bool.and_eq_true, Bool.and_eq_true, isSeen_iff h hc hm, ReadChanged, and_assoc,
    Bool.not_eq_true', Bool.not_eq_true]
  refine and_congr_right fun _ => and_congr_right fun _ => ?_
  generalize hcn : readCnOf store _ m = cn at *
  by_cases hr : syncFlags &&& SYNC_FLAG_READSTATE = 0
  · simp [contentRequest, hr]
  · have hhint := idsetHint_makeEidEx h.pread.serialize hlt
    simp only [contentRequest, ne_eq, hr, not_false_eq_true, if_true, true_and, Bool.not_eq_true',
      decide_eq_false_iff_not, hhint, not_or]
    constructor
    · rintro ⟨h0, hnot⟩
      exact ⟨cn, h0, rfl, hnot⟩
    · rintro ⟨_, h0, rfl, hnot⟩
      exact ⟨h0, hnot⟩

lemma exact_of_sync (h : pstate.IsClientState)
    (hc : icsInitIdsetCache pstate.pgiven = some cache) :
    let q := contentRequest folderId username syncFlags extraFlags prestriction pstate
    Exact store folderId username syncFlags extraFlags prestriction pstate (· = 1)
      (contentSyncOf store q cache (addRows store q cache .init (rowsOf store q))) := by
  intro q
  have hrow : ∀ m, m ∈ rowsOf store q ↔ InScope store folderId syncFlags prestriction m :=
    fun m => mem_rowsOf
  have hseen : ∀ m, InScope store folderId syncFlags prestriction m →
      (isSeen q cache m = false ↔ ¬ Known pstate m) := fun m hm => by
    have hiff : isSeen q cache m = true ↔ Known pstate m := isSeen_iff h hc hm
    rw [← hiff, Bool.not_eq_true]
  have hreport : ∀ m, InScope store folderId syncFlags prestriction m →
      (reportsRead store q cache m = true ↔
        ReadChanged store folderId username syncFlags extraFlags prestriction pstate m) :=
    fun m hm => reportsRead_iff h hc hm
  -- an identifier of the client is out of scope when no message in scope has its counter
  have hgone : ∀ v, v < 2 ^ 48 →
      (ropUtilGetGcValue (ropUtilMakeEidEx 1 v) ∉ (rowsOf store q).map Message.messageId ↔
        ∀ m, InScope store folderId syncFlags prestriction m →
          ropUtilMakeEidEx 1 v ≠ ropUtilMakeEidEx 1 m.messageId) := by
    intro v hv
    rw [ropUtilGetGcValue_makeEidEx (by norm_num) hv, List.mem_map, not_exists]
    refine forall_congr' fun m => ?_
    rw [not_and, hrow]
    refine imp_congr_right fun hm => not_congr ⟨fun heq => by rw [heq], fun heq => ?_⟩
    exact (ropUtilMakeEidEx_inj (by norm_num) (by norm_num) hv (store.messageId_mem m hm.mem).2
      heq).2.symm
  have hgc : ∀ {eid m}, eid ∈ idsetEnumRepl pstate.pgiven 1 → m ∈ store.messages →
      (m.messageId = ropUtilGetGcValue eid ↔ eid = ropUtilMakeEidEx 1 m.messageId) := by
    intro eid m heid hm
    obtain ⟨v, hv, rfl⟩ := mem_idsetEnumRepl.1 heid
    have hlt := h.pgiven.value_of_holds hv
    rw [ropUtilGetGcValue_makeEidEx (by norm_num) hlt]
    exact ⟨fun heq => by rw [heq], fun heq => (ropUtilMakeEidEx_inj (by norm_num) (by norm_num) hlt
      (store.messageId_mem m hm).2 heq).2.symm⟩
  refine ⟨fun eid => ?_, fun eid => ?_, fun eid => ?_, fun eid => ?_, fun eid heid m hm heq => ?_,
    fun eid heid => ?_, fun eid => ?_, fun eid => ?_⟩
  · rw [contentSyncOf]
    simp only [addRows, Tables.init, List.nil_append, List.mem_map, List.mem_mergeSort]
    constructor
    · rintro ⟨v, ⟨m, hm, rfl⟩, rfl⟩
      exact ⟨m, (hrow m).1 hm, rfl⟩
    · rintro ⟨m, hm, rfl⟩
      exact ⟨_, ⟨m, (hrow m).2 hm, rfl⟩, rfl⟩
  · rw [mem_chgMids]
    refine exists_congr fun m => ?_
    rw [hrow]
    exact and_congr_right fun hm => and_congr_left fun _ => hseen m hm
  · rw [mem_updatedMids]
    refine exists_congr fun m => ?_
    rw [hrow, icsHintIdsetCache_iff hc]
    exact and_congr_right fun hm => and_congr_left fun _ => hseen m hm
  · rw [mem_gone.1, mem_gone.2, ← and_or_left, ← and_or_left]
    constructor
    · rintro ⟨heid, hnew, -⟩
      obtain ⟨v, hv, rfl⟩ := mem_idsetEnumRepl.1 heid
      exact ⟨1, v, rfl, hv, rfl, (hgone v (h.pgiven.value_of_holds hv)).1 hnew⟩
    · rintro ⟨_, v, rfl, hv, rfl, hnew⟩
      exact ⟨mem_idsetEnumRepl.2 ⟨v, hv, rfl⟩, (hgone v (h.pgiven.value_of_holds hv)).2 hnew,
        (em _).symm⟩
  · obtain ⟨heid, -, hnone⟩ := mem_gone.1.1 heid
    exact hnone ⟨m, hm, (hgc heid hm).2 heq⟩
  · obtain ⟨heid, -, m, hm, heq⟩ := mem_gone.2.1 heid
    exact ⟨m, hm, (hgc heid hm).1 heq⟩
  · have hiff := @mem_reads store q cache (rowsOf store q) eid fun state => state ≠ 0
    rw [contentSyncOf]
    refine hiff.trans (exists_congr fun m => ?_)
    rw [hrow, decide_eq_true_iff]
    exact and_congr_right fun hm => and_congr_left fun _ => hreport m hm
  · have hiff := @mem_reads store q cache (rowsOf store q) eid fun state => state = 0
    rw [contentSyncOf]
    refine hiff.trans (exists_congr fun m => ?_)
    rw [hrow, decide_eq_true_iff]
    exact and_congr_right fun hm => and_congr_left fun _ => hreport m hm

lemma writeSeen_spec {pset : Idset} (hp : IsClientSet pset) (flag : ℕ) {last : ℕ}
    (hlast : last < 2 ^ 48) :
    ∃ pset', writeSeen flag syncFlags (if last ≠ 0 then ropUtilMakeEidEx 1 last else 0) pset =
        some pset' ∧ IsClientSet pset' ∧
      (syncFlags &&& flag ≠ 0 → ∀ cn, 1 ≤ cn → cn ≤ last → Holds pset' 1 cn) := by
  by_cases hwrite : syncFlags &&& flag ≠ 0 ∧ last ≠ 0
  · obtain ⟨pset', hset, hclient, hholds⟩ :=
      clearAppendRange_spec hp.serialize (Nat.pos_of_ne_zero hwrite.2) hlast
    refine ⟨pset', ?_, hclient, fun _ cn h1 h2 => (hholds cn).2 ⟨h1, h2⟩⟩
    have hne : ropUtilMakeEidEx 1 last ≠ 0 := by
      rw [ropUtilMakeEidEx_eq (by norm_num)]
      omega
    rw [writeSeen, if_pos hwrite.2, if_pos ⟨hwrite.1, hne⟩,
      ropUtilGetGcValue_makeEidEx (by norm_num) hlast, hset]
  · refine ⟨idsetClear pset, ?_, isClientSet_clear hp.serialize, fun hf cn h1 h2 => ?_⟩
    · rw [writeSeen, if_neg]
      rintro ⟨hf, hne⟩
      refine hwrite ⟨hf, fun h0 => hne ?_⟩
      rw [if_neg (not_not.2 h0)]
    · exact absurd ⟨hf, by omega⟩ hwrite

lemma writeRead_spec {pset : Idset} (hp : IsClientSet pset) {last lastRead : ℕ}
    (hlast : lastRead < 2 ^ 48) :
    ∃ pset', writeRead syncFlags (if last ≠ 0 then ropUtilMakeEidEx 1 last else 0)
        (if lastRead ≠ 0 then ropUtilMakeEidEx 1 lastRead else 0) pset = some pset' ∧
      IsClientSet pset' ∧
      (syncFlags &&& SYNC_FLAG_READSTATE ≠ 0 → ∀ cn, 1 ≤ cn → cn ≤ lastRead → Holds pset' 1 cn) := by
  by_cases hf : syncFlags &&& SYNC_FLAG_READSTATE ≠ 0
  · by_cases h0 : lastRead = 0
    · -- nothing has been read, and any set will do
      have hsome : ∃ pset', writeRead syncFlags (if last ≠ 0 then ropUtilMakeEidEx 1 last else 0)
          (if lastRead ≠ 0 then ropUtilMakeEidEx 1 lastRead else 0) pset = some pset' ∧
          IsClientSet pset' := by
        rw [writeRead, if_pos hf, if_pos (by rw [if_neg (not_not.2 h0)])]
        obtain ⟨pset', hset, hclient, -⟩ := @clearAppendRange_spec pset hp.serialize
          (CHANGE_NUMBER_BEGIN - 1) (by decide) (by decide)
        split_ifs <;> first
          | exact ⟨pset', hset, hclient⟩
          | exact ⟨_, rfl, isClientSet_clear hp.serialize⟩
      obtain ⟨pset', hset, hclient⟩ := hsome
      exact ⟨pset', hset, hclient, fun _ cn h1 h2 => by omega⟩
    · obtain ⟨pset', hset, hclient, hholds⟩ :=
        clearAppendRange_spec hp.serialize (Nat.pos_of_ne_zero h0) hlast
      refine ⟨pset', ?_, hclient, fun _ cn h1 h2 => (hholds cn).2 ⟨h1, h2⟩⟩
      have hne : ropUtilMakeEidEx 1 lastRead ≠ 0 := by
        rw [ropUtilMakeEidEx_eq (by norm_num)]
        omega
      rw [writeRead, if_pos hf, if_pos h0, if_neg hne,
        ropUtilGetGcValue_makeEidEx (by norm_num) hlast, hset]
  · refine ⟨idsetClear pset, by rw [writeRead, if_neg hf], isClientSet_clear hp.serialize,
      fun h => absurd h hf⟩

/-- The read change number looked up is no matter of the state. -/
lemma readCnOf_state {pstate' : IcsState} :
    readCnOf store (contentRequest folderId username syncFlags extraFlags prestriction pstate') m =
      readCnOf store (contentRequest folderId username syncFlags extraFlags prestriction pstate) m := by
  unfold readCnOf contentRequest
  by_cases hr : syncFlags &&& SYNC_FLAG_READSTATE = 0 <;> simp [hr]

/-- What a synchronization and the state it writes back come to. -/
lemma icsdownctxObjectMakeContent_spec (h : pstate.IsClientState)
    (hc : (icsInitIdsetCache pstate.pgiven).isSome = true) :
    ∃ r pstate' pstate'', icsdownctxObjectMakeContent store folderId username syncFlags extraFlags
        prestriction pstate = some (r, pstate') ∧
      Exact store folderId username syncFlags extraFlags prestriction pstate (· = 1) r ∧
      icsdownctxObjectWriteState syncFlags r pstate' = some pstate'' ∧ pstate''.IsClientState ∧
      (icsInitIdsetCache pstate''.pgiven).isSome = true ∧
      (∀ replid v, Holds pstate''.pgiven replid v ↔
        replid = 1 ∧ ∃ m, InScope store folderId syncFlags prestriction m ∧ v = m.messageId) ∧
      ∀ m, InScope store folderId syncFlags prestriction m → Known pstate'' m ∧
        ¬ ReadChanged store folderId username syncFlags extraFlags prestriction pstate'' m := by
  obtain ⟨cache, hc⟩ := Option.isSome_iff_exists.1 hc
  let q := contentRequest folderId username syncFlags extraFlags prestriction pstate
  have hrow : ∀ m, m ∈ rowsOf store q ↔ InScope store folderId syncFlags prestriction m :=
    fun m => mem_rowsOf
  have hsync : exmdbServerGetContentSync store q =
      some (contentSyncOf store q cache (addRows store q cache .init (rowsOf store q))) :=
    exmdbServerGetContentSync_eq hc
  have hexact := @exact_of_sync store folderId username syncFlags extraFlags prestriction pstate
    cache h hc
  -- the identifiers given
  have hvs : ∀ v ∈ ((rowsOf store q).map Message.messageId).mergeSort (· ≥ ·), IsValue v := by
    intro v hv
    obtain ⟨m, hm, rfl⟩ := List.mem_map.1 (List.mem_mergeSort.1 hv)
    exact store.messageId_mem m ((hrow m).1 hm).mem
  obtain ⟨pgiven', hgiven, hclient, hasc, -, hholds⟩ := appendGiven_spec h.pgiven.serialize _ hvs
  -- the last change numbers
  have hcn := (le_foldl_max Message.changeNumber (rowsOf store q) 0).2
  have hcnlt : (rowsOf store q).foldl (fun cn m => max cn m.changeNumber) 0 < 2 ^ 48 :=
    foldl_max_lt Message.changeNumber (by norm_num) fun m hm =>
      (store.changeNumber_mem m ((hrow m).1 hm).mem).2
  have hread := (le_foldl_max (readCnOf store q) (rowsOf store q) 0).2
  have hreadlt : (rowsOf store q).foldl (fun cn m => max cn (readCnOf store q m)) 0 < 2 ^ 48 :=
    foldl_max_lt (readCnOf store q) (by norm_num) fun m hm => readCnOf_lt q ((hrow m).1 hm).mem
  obtain ⟨pseen', hseen, hseenc, hseenh⟩ :=
    @writeSeen_spec syncFlags _ h.pseen SYNC_FLAG_NORMAL _ hcnlt
  obtain ⟨pseenFai', hfai, hfaic, hfaih⟩ :=
    @writeSeen_spec syncFlags _ h.pseenFai SYNC_FLAG_FAI _ hcnlt
  obtain ⟨pread', hpread, hpreadc, hpreadh⟩ := @writeRead_spec syncFlags _ h.pread
    ((rowsOf store q).foldl (fun cn m => max cn m.changeNumber) 0) _ hreadlt
  refine ⟨_, { pstate with pgiven := pgiven' }, ⟨pgiven', pseen', pseenFai', pread'⟩, ?_, hexact, ?_,
    ⟨hclient, hseenc, hfaic, hpreadc⟩, isSome_of_ascending hasc, ?_, fun m hm => ⟨⟨?_, ?_⟩, ?_⟩⟩
  · rw [icsdownctxObjectMakeContent, hsync, Option.bind_eq_bind, Option.bind_some]
    exact congrArg (Option.bind · _) hgiven
  · have hseen' : writeSeen SYNC_FLAG_NORMAL syncFlags (contentSyncOf store q cache
        (addRows store q cache .init (rowsOf store q))).lastCn pstate.pseen = some pseen' := hseen
    have hfai' : writeSeen SYNC_FLAG_FAI syncFlags (contentSyncOf store q cache
        (addRows store q cache .init (rowsOf store q))).lastCn pstate.pseenFai = some pseenFai' := hfai
    have hpread' : writeRead syncFlags (contentSyncOf store q cache
        (addRows store q cache .init (rowsOf store q))).lastCn (contentSyncOf store q cache
        (addRows store q cache .init (rowsOf store q))).lastReadcn pstate.pread = some pread' := hpread
    rw [icsdownctxObjectWriteState, hseen', Option.bind_eq_bind, Option.bind_some, hfai',
      Option.bind_some]
    exact congrArg (Option.bind · _) hpread'
  · intro replid v
    simp only [hholds, List.mem_mergeSort, List.mem_map, hrow, eq_comm (a := v)]
  · exact (hholds 1 _).2 ⟨rfl, List.mem_mergeSort.2 (List.mem_map_of_mem ((hrow m).2 hm))⟩
  · have hpos := (store.changeNumber_mem m hm.mem).1
    have hle := hcn m ((hrow m).2 hm)
    have hflag := hm.2.2.2.1
    cases ha : m.isAssociated
    · simp only [ha, Bool.false_eq_true, if_false] at hflag ⊢
      exact hseenh hflag _ hpos hle
    · simp only [ha, if_true] at hflag ⊢
      exact hfaih hflag _ hpos hle
  · rintro ⟨-, -, hf, cn, h0, hcn', hnot⟩
    have hsame : cn = readCnOf store q m := hcn'.trans readCnOf_state
    have hle := hread m ((hrow m).2 hm)
    exact hnot (hpreadh hf cn (Nat.pos_of_ne_zero h0) (hsame ▸ hle))

lemma isSome_of_make
    (h : (icsdownctxObjectMakeContent store folderId username syncFlags extraFlags prestriction
      pstate).isSome = true) : (icsInitIdsetCache pstate.pgiven).isSome = true := by
  rw [icsdownctxObjectMakeContent, exmdbServerGetContentSync] at h
  cases hc : icsInitIdsetCache pstate.pgiven with
  | none =>
    rw [contentRequest, hc] at h
    exact h
  | some cache => rfl

/-- **Content synchronization.** The call fails only when two ranges of replica 1 that the client
was given share a value and both are short. Otherwise it reports as changed the messages in scope
that the client does not know in their last change, as deleted or no longer in scope what the
client has of replica 1 and is not in scope, and a read state for known messages alone; done again
with the state written back, it reports nothing. -/
theorem contentSync_exact (store : Store) (folderId : ℕ) (username : String)
    (syncFlags extraFlags : ℕ) (prestriction : Option (ℕ → Bool)) (pstate : IcsState)
    (h : pstate.IsClientState) :
    ((icsdownctxObjectMakeContent store folderId username syncFlags extraFlags prestriction
        pstate).isSome = true ↔
      ((rangeListOf pstate.pgiven.replList 1).filter isShort).Pairwise fun a b =>
        ∀ v, ¬ (a.Has v ∧ b.Has v)) ∧
    ∀ r pstate', icsdownctxObjectMakeContent store folderId username syncFlags extraFlags
        prestriction pstate = some (r, pstate') →
      Exact store folderId username syncFlags extraFlags prestriction pstate (· = 1) r ∧
      ∃ pstate'', icsdownctxObjectWriteState syncFlags r pstate' = some pstate'' ∧
        ∃ r' pstate₃, icsdownctxObjectMakeContent store folderId username syncFlags extraFlags
            prestriction pstate'' = some (r', pstate₃) ∧
          r'.chgMids = [] ∧ r'.deletedMids = [] ∧ r'.nolongerMids = [] ∧ r'.readMids = [] ∧
          r'.unreadMids = [] := by
  refine ⟨⟨fun hsome => icsInitIdsetCache_isSome.1 (isSome_of_make hsome), fun hp => ?_⟩,
    fun r pstate' hmake => ?_⟩
  · obtain ⟨r, pstate', -, hmake, -⟩ := @icsdownctxObjectMakeContent_spec store folderId username
      syncFlags extraFlags prestriction pstate h (icsInitIdsetCache_isSome.2 hp)
    rw [hmake]
    rfl
  · obtain ⟨_, _, pstate'', hmake', hexact, hwrite, hclient, hcache, hgiven, hknown⟩ :=
      @icsdownctxObjectMakeContent_spec store folderId username syncFlags extraFlags prestriction
        pstate h (isSome_of_make (by rw [hmake]; rfl))
    rw [hmake] at hmake'
    cases hmake'
    obtain ⟨r', pstate₃, -, hagain, hexact', -⟩ := @icsdownctxObjectMakeContent_spec store folderId
      username syncFlags extraFlags prestriction pstate'' hclient hcache
    refine ⟨hexact, pstate'', hwrite, r', pstate₃, hagain, ?_⟩
    -- what would be gone was given, and what was given is in scope
    have hnone : ∀ eid, ¬ (eid ∈ r'.deletedMids ∨ eid ∈ r'.nolongerMids) := by
      intro eid heid
      obtain ⟨replid, v, rfl, hv, -, hnew⟩ := (hexact'.gone eid).1 heid
      obtain ⟨rfl, m, hm, rfl⟩ := (hgiven replid v).1 hv
      exact hnew m hm rfl
    simp only [List.eq_nil_iff_forall_not_mem]
    refine ⟨fun eid heid => ?_, fun eid heid => hnone eid (.inl heid),
      fun eid heid => hnone eid (.inr heid), fun eid heid => ?_, fun eid heid => ?_⟩
    · obtain ⟨m, hm, hnew, -⟩ := (hexact'.changed eid).1 heid
      exact hnew (hknown m hm).1
    · obtain ⟨m, hm, hr, -⟩ := (hexact'.read eid).1 heid
      exact (hknown m hm).2 hr
    · obtain ⟨m, hm, hr, -⟩ := (hexact'.unread eid).1 heid
      exact (hknown m hm).2 hr

/-- Message 5 is known and read since, message 6 is new, message 9 lies in another folder. -/
def sampleStore : Store where
  isPrivate := true
  messages := [⟨5, some 1, false, false, 3, 10, 1, some 7⟩, ⟨6, some 1, false, true, 4, 20, 0, none⟩,
    ⟨9, some 2, false, false, 8, 30, 0, none⟩]
  readCns := []
  readStates := []
  getProperty _ _ := none
  nodup_messageId := by decide
  messageId_mem := by decide
  changeNumber_mem := by decide
  readCn_mem := by simp
  readCns_mem := by simp

/-- The client has messages 5 and 7 to 9, of which 7 and 8 are deleted, and has seen changes up
to 3. -/
def sampleState : IcsState :=
  ⟨⟨true, .guid, [⟨1, [⟨5, 5⟩, ⟨7, 9⟩]⟩]⟩, ⟨true, .guid, [⟨1, [⟨1, 3⟩]⟩]⟩,
    ⟨true, .guid, [⟨1, [⟨1, 3⟩]⟩]⟩, ⟨true, .guid, []⟩⟩

theorem contentSync_exact_sample :
    ((icsdownctxObjectMakeContent sampleStore (ropUtilMakeEidEx 1 1) "" 0x38 0 none
        sampleState).isSome = true ↔
      ((rangeListOf sampleState.pgiven.replList 1).filter isShort).Pairwise fun a b =>
        ∀ v, ¬ (a.Has v ∧ b.Has v)) ∧
    ∀ r pstate', icsdownctxObjectMakeContent sampleStore (ropUtilMakeEidEx 1 1) "" 0x38 0 none
        sampleState = some (r, pstate') →
      Exact sampleStore (ropUtilMakeEidEx 1 1) "" 0x38 0 none sampleState (· = 1) r ∧
      ∃ pstate'', icsdownctxObjectWriteState 0x38 r pstate' = some pstate'' ∧
        ∃ r' pstate₃, icsdownctxObjectMakeContent sampleStore (ropUtilMakeEidEx 1 1) "" 0x38 0 none
            pstate'' = some (r', pstate₃) ∧
          r'.chgMids = [] ∧ r'.deletedMids = [] ∧ r'.nolongerMids = [] ∧ r'.readMids = [] ∧
          r'.unreadMids = [] :=
  contentSync_exact sampleStore (ropUtilMakeEidEx 1 1) "" 0x38 0 none sampleState
    ⟨⟨rfl, by simp [sampleState], by simp [sampleState]⟩,
      ⟨rfl, by simp [sampleState], by simp [sampleState]⟩,
      ⟨rfl, by simp [sampleState], by simp [sampleState]⟩,
      ⟨rfl, by simp [sampleState], by simp [sampleState]⟩⟩

/-- An identifier of another replica is gone from the state, and reported neither as deleted nor
as no longer in scope. -/
theorem not_contentSync_exact :
    ¬ ∀ (store : Store) (folderId : ℕ) (username : String) (syncFlags extraFlags : ℕ)
      (pstate : IcsState), pstate.IsClientState →
      ∀ r pstate', icsdownctxObjectMakeContent store folderId username syncFlags extraFlags none
          pstate = some (r, pstate') →
        Exact store folderId username syncFlags extraFlags none pstate (fun _ => True) r ∧
        ∃ pstate'', icsdownctxObjectWriteState syncFlags r pstate' = some pstate'' ∧
          ∃ r' pstate₃, icsdownctxObjectMakeContent store folderId username syncFlags extraFlags
              none pstate'' = some (r', pstate₃) ∧
            r'.chgMids = [] ∧ r'.deletedMids = [] ∧ r'.nolongerMids = [] ∧ r'.readMids = [] ∧
            r'.unreadMids = [] := by
  intro h
  let pstate : IcsState := ⟨⟨true, .guid, [⟨2, [⟨5, 5⟩]⟩]⟩, ⟨true, .guid, []⟩, ⟨true, .guid, []⟩,
    ⟨true, .guid, []⟩⟩
  have hclient : pstate.IsClientState :=
    ⟨⟨rfl, by simp [pstate], by simp [pstate]⟩, ⟨rfl, by simp [pstate], by simp [pstate]⟩,
      ⟨rfl, by simp [pstate], by simp [pstate]⟩, ⟨rfl, by simp [pstate], by simp [pstate]⟩⟩
  obtain ⟨r, pstate', -, hmake, hexact, -⟩ := @icsdownctxObjectMakeContent_spec sampleStore
    (ropUtilMakeEidEx 1 1) "" 0x38 0 none pstate hclient rfl
  obtain ⟨hall, -⟩ := h _ _ _ _ _ _ hclient r pstate' hmake
  have hgone := (hall.gone (ropUtilMakeEidEx 2 5)).2
    ⟨2, 5, rfl, by decide, trivial, fun m hm heq => absurd (ropUtilMakeEidEx_inj (by norm_num)
      (by norm_num) (by norm_num) (sampleStore.messageId_mem m hm.mem).2 heq).1 (by norm_num)⟩
  obtain ⟨replid, v, heq, hv, rfl, -⟩ := (hexact.gone _).1 hgone
  exact absurd (ropUtilMakeEidEx_inj (by norm_num) (by norm_num) (by norm_num)
    (hclient.pgiven.value_of_holds hv) heq).1 (by norm_num)

end Sync

end SteepSystem.Ics.Content
