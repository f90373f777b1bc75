import Mathlib.Data.List.TakeWhile
import SteepSystem.MailEngine.Uids

/-!
What a run of `mail_engine_sync_contents` leaves: the counter of its folder, the rows of the
messages that were not modified, and the messages of the folder.
-/

namespace SteepSystem.MailEngine

open SteepSystem.Lib.Numbering

variable {home : ℕ → ℕ} {b : ℕ → Option ℕ} {s t : Index} {a : Answers} {f n id : ℕ}
  {m m' : Message} {r r' : Stored} {rows : List Stored} {p : ℕ × Index} {q : Sync}

/-- The row `m'` is about the same message as `m`, with its uid and its time. -/
def Message.Same (m m' : Message) : Prop :=
  m'.messageId = m.messageId ∧ m'.numbered = m.numbered ∧ m'.modTime = m.modTime

def Index.Holds (s : Index) (m : Message) : Prop := ∃ m' ∈ s.messages, m.Same m'

/-- The store has not modified the message since it was indexed. -/
def Stored.Unmodified (r : Stored) (m : Message) : Prop :=
  r.midString.isSome ∨ r.modTime ≤ m.modTime

/-- The `mid_string` a row is inserted with. -/
def Stored.name (a : Answers) (r : Stored) : String := r.midString.getD (a.made r.messageId)

lemma mem_table {rows : List Row} : r ∈ table rows ↔ ∃ row ∈ rows, row.stored = some r := by
  rw [table, List.mem_mergeSort, List.mem_filterMap]

lemma stored_messageId {row : Row} (h : row.stored = some r) : r.messageId = row.messageId := by
  obtain ⟨flags, -, rfl⟩ := Option.map_eq_some_iff.mp h
  rfl

namespace Index

lemma message?_eq_none : s.message? id = none ↔ ∀ m ∈ s.messages, m.messageId ≠ id := by
  simp [message?, List.find?_eq_none]

lemma mem_of_message? (h : s.message? id = some m) : m ∈ s.messages ∧ m.messageId = id :=
  ⟨List.mem_of_find?_eq_some h, by simpa using List.find?_some h⟩

lemma mem_of_found (h : found a s id = some m) : m ∈ s.messages ∧ m.messageId = id := by
  unfold found at h
  split at h
  · exact mem_of_message? h
  · exact absurd h (by simp)

lemma mem_delete : m ∈ (s.delete id).messages ↔ m ∈ s.messages ∧ m.messageId ≠ id := by
  simp [delete]

lemma mem_insert_of_ne (hne : m.messageId ≠ m'.messageId) :
    m ∈ (s.insert m').messages ↔ m ∈ s.messages := by
  unfold insert
  split
  · rw [List.mem_append, List.mem_singleton]
    exact or_iff_left fun h => hne (by rw [h])
  · rfl

lemma mem_insert_of_mem (h : m ∈ s.messages) : m ∈ (s.insert m').messages := by
  unfold insert
  split
  · exact List.mem_append_left _ h
  · exact h

lemma mem_updateFlags_of_ne {flags : UInt32} (hne : m.messageId ≠ id) :
    m ∈ (s.updateFlags id flags).messages ↔ m ∈ s.messages := by
  unfold updateFlags
  rw [List.mem_map]
  constructor
  · rintro ⟨m', hm', rfl⟩
    split at hne
    · rename_i hid
      exact absurd hid hne
    · rename_i hid
      rwa [if_neg hid]
  · exact fun hm => ⟨m, hm, if_neg hne⟩

lemma mem_insertMessage_of_ne {mid : Option String} (hne : m.messageId ≠ r.messageId) :
    m ∈ (insertMessage a f r mid p).2.messages ↔ m ∈ p.2.messages := by
  unfold insertMessage
  split
  · dsimp only
    split
    · exact mem_insert_of_ne hne
    · rfl
  · rfl

lemma mem_insertMessage_of_mem {mid : Option String} (h : m ∈ p.2.messages) :
    m ∈ (insertMessage a f r mid p).2.messages := by
  unfold insertMessage
  split
  · dsimp only
    split
    · exact mem_insert_of_mem h
    · exact h
  · exact h

/-- A turn of the loop is about one message. -/
lemma mem_syncRow_of_ne (hne : m.messageId ≠ r.messageId) :
    m ∈ (syncRow a f p r).2.messages ↔ m ∈ p.2.messages := by
  unfold syncRow
  split
  · exact mem_insertMessage_of_ne hne
  · unfold syncMessage
    split_ifs
    · exact mem_updateFlags_of_ne hne
    · rfl
    · rfl
    · rw [mem_insertMessage_of_ne hne, mem_delete]
      exact and_iff_left hne
    · rfl

lemma holds_updateFlags {flags : UInt32} (h : s.Holds m) : (s.updateFlags id flags).Holds m := by
  obtain ⟨m', hm', hsame⟩ := h
  refine ⟨_, List.mem_map_of_mem hm', ?_⟩
  split
  · exact hsame
  · exact hsame

lemma syncMessage_of_unmodified (h : r.Unmodified m) :
    syncMessage a f m r p = p ∨
      syncMessage a f m r p = (p.1, p.2.updateFlags r.messageId r.messageFlags) := by
  have hif : r.midString.isSome = true ∨ r.modTime ≤ m.modTime := h
  unfold syncMessage
  rw [if_pos hif]
  split_ifs
  · exact .inr rfl
  · exact .inl rfl
  · exact .inl rfl

/-- A message keeps its row unless the turn is about it and it was modified. -/
lemma Holds.syncRow (h : p.2.Holds m) (hnodup : (p.2.messages.map (·.messageId)).Nodup)
    (hr : r.messageId = m.messageId → r.Unmodified m) : (syncRow a f p r).2.Holds m := by
  obtain ⟨m', hm', hsame⟩ := h
  by_cases hid : r.messageId = m.messageId
  · unfold Index.syncRow
    cases hfound : found a p.2 r.messageId with
    | none => exact ⟨m', mem_insertMessage_of_mem hm', hsame⟩
    | some m₁ =>
      obtain ⟨hm₁, hid₁⟩ := mem_of_found hfound
      obtain rfl : m₁ = m' := List.inj_on_of_nodup_map hnodup hm₁ hm'
        (by rw [hid₁, hid, hsame.1])
      have hun : r.Unmodified m₁ := by
        rw [Stored.Unmodified, hsame.2.2]
        exact hr hid
      dsimp only
      rcases syncMessage_of_unmodified (a := a) (f := f) (p := p) hun with heq | heq
      · rw [heq]
        exact ⟨m₁, hm', hsame⟩
      · rw [heq]
        exact holds_updateFlags ⟨m₁, hm', hsame⟩
  · exact ⟨m', (mem_syncRow_of_ne (by rw [hsame.1]; exact Ne.symm hid)).mpr hm', hsame⟩

lemma given_insertMessage_of_mem {mid : Option String} (hm : m ∈ p.2.messages)
    (hid : m.messageId = r.messageId) : (insertMessage a f r mid p).2.given = p.2.given := by
  unfold insertMessage Index.insert
  split
  · dsimp only
    split
    · rw [if_neg]
      intro hall
      have hne := List.all_eq_true.mp hall m hm
      simp [hid] at hne
    · rfl
  · rfl

/-- The turn gives out nothing for a message that is indexed and was not modified. -/
lemma given_syncRow (h : p.2.Holds m) (hnodup : (p.2.messages.map (·.messageId)).Nodup)
    (hid : r.messageId = m.messageId) (hr : r.Unmodified m) :
    (syncRow a f p r).2.given = p.2.given := by
  obtain ⟨m', hm', hsame⟩ := h
  unfold Index.syncRow
  cases hfound : found a p.2 r.messageId with
  | none => exact given_insertMessage_of_mem hm' (by rw [hsame.1, hid])
  | some m₁ =>
    obtain ⟨hm₁, hid₁⟩ := mem_of_found hfound
    obtain rfl : m₁ = m' := List.inj_on_of_nodup_map hnodup hm₁ hm' (by rw [hid₁, hid, hsame.1])
    have hun : r.Unmodified m₁ := by
      rw [Stored.Unmodified, hsame.2.2]
      exact hr
    dsimp only
    rcases syncMessage_of_unmodified (a := a) (f := f) (p := p) hun with heq | heq
    · rw [heq]
    · rw [heq, given_updateFlags]

lemma mem_removeAll_of_notMem {ids : List ℕ} (h : m ∈ s.messages) (hid : m.messageId ∉ ids) :
    m ∈ (removeAll a s ids).2.messages := by
  induction ids generalizing s with
  | nil => exact h
  | cons id rest ih =>
    rw [List.mem_cons, not_or] at hid
    unfold removeAll
    split
    · exact ih (mem_delete.mpr ⟨h, hid.1⟩) hid.2
    · exact h

lemma mem_of_mem_removeAll {ids : List ℕ} (h : m ∈ (removeAll a s ids).2.messages) :
    m ∈ s.messages := by
  induction ids generalizing s with
  | nil => exact h
  | cons id rest ih =>
    unfold removeAll at h
    split at h
    · exact (mem_delete.mp (ih h)).1
    · exact h

lemma notMem_of_mem_removeAll {ids : List ℕ} (hall : (removeAll a s ids).1 = true)
    (h : m ∈ (removeAll a s ids).2.messages) : m.messageId ∉ ids := by
  induction ids generalizing s with
  | nil => exact List.not_mem_nil
  | cons id rest ih =>
    unfold removeAll at h hall
    split at h
    · rename_i hok
      rw [if_pos hok] at hall
      rw [List.mem_cons, not_or]
      exact ⟨(mem_delete.mp (mem_of_mem_removeAll h)).2, ih hall h⟩
    · rename_i hok
      rw [if_neg hok] at hall
      exact absurd hall (by simp)

lemma mem_gone (h : id ∈ gone a f rows s) :
    (∃ m ∈ s.messages, m.messageId = id ∧ m.folderId = f) ∧
      (a.ok (.findStored id) = false ∨ ∀ r ∈ rows, r.messageId ≠ id) := by
  obtain ⟨hmem, hfind⟩ := List.mem_filter.mp h
  obtain ⟨m, hm, rfl⟩ := List.mem_map.mp (List.takeWhile_subset _ hmem)
  obtain ⟨hm, hf⟩ := List.mem_filter.mp hm
  refine ⟨⟨m, hm, rfl, by simpa using hf⟩, ?_⟩
  cases hok : a.ok (.findStored m.messageId) with
  | false => exact .inl rfl
  | true =>
    rw [hok] at hfind
    exact .inr (by simpa using hfind)

lemma mem_gone_of_ok (hm : m ∈ s.messages) (hf : m.folderId = f)
    (hnext : ∀ id, a.ok (.nextIndexed id)) (hrows : ∀ r ∈ rows, r.messageId ≠ m.messageId) :
    m.messageId ∈ gone a f rows s := by
  refine List.mem_filter.mpr ⟨?_, ?_⟩
  · rw [List.takeWhile_eq_self_iff.mpr fun id _ => hnext id]
    exact List.mem_map_of_mem (List.mem_filter.mpr ⟨hm, by simpa using hf⟩)
  · simpa using Or.inr hrows

/-- What the run leaves of the messages when it comes to its end. -/
lemma messages_finish (n : ℕ) (hlist : a.ok .list) : (finish a f n rows p).2.messages =
    (removeAll a p.2 (gone a f rows p.2)).2.messages := by
  unfold finish
  rw [if_pos hlist]
  split_ifs <;> rfl

lemma messages_finish_of_not (n : ℕ) (hlist : a.ok .list = false) :
    finish a f n rows p = (false, p.2) := by
  unfold finish
  rw [if_neg (by simp [hlist])]

lemma given_finish (n : ℕ) : (finish a f n rows p).2.given = p.2.given := by
  unfold finish
  split_ifs <;> simp [removeAll_given]

lemma finish_true (hb : s.uidnext f = some n) (hp : p.2.uidnext = s.uidnext)
    (hrun : Running home s.uidnext f p) (h : (finish a f n rows p).1 = true) :
    Inv home (finish a f n rows p).2.uidnext (finish a f n rows p).2 := by
  have hinv : Inv home _ (removeAll a p.2 (gone a f rows p.2)).2 := Inv.removeAll hrun
  revert h
  unfold finish
  split_ifs with _ _ hne
  · intro _
    rw [uidnext_setUidnext, removeAll_uidnext, hp]
    exact hinv.setUidnext
  · simp
  · rw [not_not] at hne
    intro _
    rw [removeAll_uidnext, hp]
    rwa [hne, ← hb, Function.update_eq_self] at hinv
  · simp
  · simp

lemma finish_of_ok (n : ℕ) (hlist : a.ok .list) (hremove : ∀ id, a.ok (.remove id))
    (hwrite : a.ok .writeBack) : (finish a f n rows p).1 = true := by
  have hall : ∀ (ids : List ℕ) (s : Index), (removeAll a s ids).1 = true := by
    intro ids
    induction ids with
    | nil => exact fun _ => rfl
    | cons id rest ih =>
      intro s
      unfold removeAll
      rw [if_pos (hremove id)]
      exact ih _
  unfold finish
  rw [if_pos hlist, if_pos (hall _ _)]
  split_ifs <;> rfl

lemma finish_false (h : (finish a f n rows p).1 = false) :
    (finish a f n rows p).2.uidnext = p.2.uidnext := by
  revert h
  unfold finish
  split_ifs <;> simp [removeAll_uidnext]

end Index

lemma Inv.finish (h : Inv home b p.2) : Inv home b (Index.finish a f n rows p).2 := by
  unfold Index.finish
  split_ifs
  · exact h.removeAll.setUidnext
  · exact h.removeAll
  · exact h.removeAll
  · exact h.removeAll
  · exact h

/-- A property of the place in the loop that every turn keeps. -/
lemma Running.induct {P : ℕ × Index → Prop} (h : Running home b f p)
    (hroom : p.1 + 2 * rows.length < 2 ^ 32) (hhome : ∀ r ∈ rows, home r.messageId = f)
    (hrow : ∀ p, ∀ r ∈ rows, Running home b f p → P p → P (Index.syncRow a f p r)) (hp : P p) :
    P (rows.foldl (Index.syncRow a f) p) := by
  induction rows generalizing p with
  | nil => exact hp
  | cons r rest ih =>
    rw [List.length_cons] at hroom
    obtain ⟨hr, -, hle⟩ := h.syncRow (a := a) (by omega) (hhome r (List.mem_cons_self ..))
    exact ih hr (by omega) (fun r' hr' => hhome r' (List.mem_cons_of_mem _ hr'))
      (fun p r' hr' => hrow p r' (List.mem_cons_of_mem _ hr'))
      (hrow p r (List.mem_cons_self ..) h hp)

/-- The store reports the message of `m`, if it is in the folder of the run, as it was indexed. -/
def Sync.Spares (q : Sync) (m : Message) : Prop :=
  m.folderId = q.folderId → ∃ row ∈ q.rows, row.messageId = m.messageId ∧
    row.messageFlags.isSome ∧ (row.midString.isSome ∨ row.lastModificationTime.getD 0 ≤ m.modTime)

/-- The counter of the folder has room for the run. -/
def Room (s : Index) (q : Sync) : Prop :=
  ∀ n, s.uidnext q.folderId = some n → n + 2 * q.rows.length < 2 ^ 32

/-- Every message that the store reports is indexed and was not modified. -/
def Settled (s : Index) (q : Sync) : Prop :=
  ∀ r ∈ table q.rows, ∃ m ∈ s.messages, m.messageId = r.messageId ∧ r.Unmodified m

/-- The calls after the loop succeed. -/
structure Sync.Finishes (q : Sync) : Prop where
  list : q.answers.ok .list
  remove : ∀ id, q.answers.ok (.remove id)
  writeBack : q.answers.ok .writeBack

/-- The run is about one folder, which is the one that the store has its messages in. -/
def Sync.Of (home : ℕ → ℕ) (q : Sync) : Prop := ∀ r ∈ q.rows, home r.messageId = q.folderId

lemma length_table_le (rows : List Row) : (table rows).length ≤ rows.length := by
  rw [table, List.length_mergeSort]
  exact List.length_filterMap_le ..

lemma Sync.Of.table (h : q.Of home) (hr : r ∈ table q.rows) : home r.messageId = q.folderId := by
  obtain ⟨row, hrow, hst⟩ := mem_table.mp hr
  rw [stored_messageId hst]
  exact h row hrow

namespace Index

/-- A run ends before its loop, or it goes through its loop and what follows it. -/
lemma syncContents_cases (s : Index) (q : Sync) :
    (∃ done, s.syncContents q = (done, s) ∧
      (done = true → q.answers.ok .readUidnext = false ∨ s.uidnext q.folderId = none)) ∨
    ∃ n, s.uidnext q.folderId = some n ∧ ((table q.rows).map (·.messageId)).Nodup ∧
      s.syncContents q = finish q.answers q.folderId (n % 2 ^ 32) (table q.rows)
        (syncRows q.answers q.folderId (n % 2 ^ 32, s) (table q.rows)) := by
  unfold syncContents
  by_cases hopen : q.answers.ok .open
  · rw [if_pos hopen]
    by_cases hread : q.answers.ok .readUidnext
    · rw [if_pos hread]
      cases hn : s.uidnext q.folderId with
      | none => exact .inl ⟨true, rfl, fun _ => .inr rfl⟩
      | some n =>
        dsimp only
        by_cases hnodup : ((table q.rows).map (·.messageId)).Nodup
        · exact .inr ⟨n, rfl, hnodup, if_pos hnodup⟩
        · exact .inl ⟨false, if_neg hnodup, by simp⟩
    · rw [if_neg hread]
      exact .inl ⟨true, rfl, fun _ => .inl (by simpa using hread)⟩
  · exact .inl ⟨false, if_neg hopen, by simp⟩

end Index

/-- The loop of a run that starts with the counter of its folder. -/
structure Loops (home : ℕ → ℕ) (s : Index) (q : Sync) (n : ℕ) (rows : List Stored) : Prop where
  running : Running home s.uidnext q.folderId (n, s)
  room : n + 2 * rows.length < 2 ^ 32
  home : ∀ r ∈ rows, home r.messageId = q.folderId

lemma Inv.loops (h : Inv home s.uidnext s) (hof : q.Of home) (hroom : Room s q)
    (hn : s.uidnext q.folderId = some n) (hsub : rows.Sublist (table q.rows)) :
    Loops home s q n rows where
  running := by
    unfold Running
    rwa [← hn, Function.update_eq_self]
  room := by
    have hroom := hroom n hn
    have hlen := length_table_le q.rows
    have hlen' := hsub.length_le
    omega
  home r hr := hof.table (hsub.subset hr)

/-- A run that succeeds, one that finishes if it comes to its end and one that has nothing to
number leave the counter of the folder above what was given out. -/
lemma Inv.syncContents (h : Inv home s.uidnext s) (hof : q.Of home) (hroom : Room s q)
    (hq : (s.syncContents q).1 = true ∨ q.Finishes ∨ Settled s q) :
    Inv home (s.syncContents q).2.uidnext (s.syncContents q).2 := by
  rcases s.syncContents_cases q with ⟨done, heq, -⟩ | ⟨n, hn, hnodup, heq⟩
  · rw [heq]
    exact h
  have hsmall : n % 2 ^ 32 = n := Nat.mod_eq_of_lt (by have := hroom n hn; omega)
  rw [hsmall] at heq
  have hloop := h.loops hof hroom hn
    (List.takeWhile_sublist fun r => q.answers.ok (.next r.messageId))
  obtain ⟨hrun, -⟩ := hloop.running.foldl (a := q.answers) hloop.room hloop.home
  rw [heq] at hq ⊢
  cases hdone : (Index.finish q.answers q.folderId n (table q.rows)
      (Index.syncRows q.answers q.folderId (n, s) (table q.rows))).1 with
  | true => exact Index.finish_true hn (by simp [Index.syncRows]) hrun hdone
  | false =>
    rcases hq with hq | hq | hq
    · rw [hdone] at hq
      exact absurd hq (by simp)
    · rw [Index.finish_of_ok n hq.list hq.remove hq.writeBack] at hdone
      exact absurd hdone (by simp)
    · have hgiven : (Index.syncRows q.answers q.folderId (n, s) (table q.rows)).2.given =
          s.given := by
        refine (hloop.running.induct (a := q.answers) (P := fun p => p.2.given = s.given ∧
          ∀ r ∈ table q.rows, ∃ m, p.2.Holds m ∧ m.messageId = r.messageId ∧ r.Unmodified m)
          hloop.room hloop.home ?_ ⟨rfl, ?_⟩).1
        · intro p r hr hp ⟨hg, hholds⟩
          have hr := List.takeWhile_subset _ hr
          obtain ⟨m, hm, hid, hun⟩ := hholds r hr
          refine ⟨by rw [Index.given_syncRow hm hp.nodup hid.symm hun, hg], fun r' hr' => ?_⟩
          obtain ⟨m', hm', hid', hun'⟩ := hholds r' hr'
          refine ⟨m', hm'.syncRow hp.nodup fun heq => ?_, hid', hun'⟩
          rwa [List.inj_on_of_nodup_map hnodup hr hr' (heq.trans hid')]
        · intro r hr
          obtain ⟨m, hm, hid, hun⟩ := hq r hr
          exact ⟨m, ⟨m, hm, rfl, rfl, rfl⟩, hid, hun⟩
      have hrest := Index.finish_false hdone
      rw [Index.syncRows, Index.uidnext_foldl_syncRow] at hrest
      have hfinish : Inv home _ (Index.finish q.answers q.folderId n (table q.rows) _).2 :=
        Inv.finish hrun
      rw [Index.syncRows, hrest]
      refine ⟨hfinish.nodup, hfinish.home, hfinish.held, ?_⟩
      rw [Index.given_finish, ← Index.syncRows, hgiven]
      exact h.numbered

end SteepSystem.MailEngine
