import SteepSystem.MailEngine.Sync

/-!
The rows of a folder after a run of `mail_engine_sync_contents`: the messages that were not
modified keep theirs, and after a run that succeeds they are the messages of the store.
-/

namespace SteepSystem.MailEngine

variable {home : ℕ → ℕ} {b : ℕ → Option ℕ} {s t : Index} {a : Answers} {f n id : ℕ}
  {m m' : Message} {r r' : Stored} {rows : List Stored} {p : ℕ × Index} {q : Sync}

lemma stored_of_flags {row : Row} {flags : UInt32} (h : row.messageFlags = some flags) :
    row.stored = some ⟨row.messageId, row.midString, row.lastModificationTime.getD 0, flags,
      row.messageDeliveryTime.getD (row.lastModificationTime.getD 0)⟩ := by
  rw [Row.stored, h]
  rfl

lemma Sync.Spares.stored (h : q.Spares m) (hf : m.folderId = q.folderId) :
    ∃ r ∈ table q.rows, r.messageId = m.messageId ∧ r.Unmodified m := by
  obtain ⟨row, hrow, hid, hflags, hun⟩ := h hf
  obtain ⟨flags, hflags⟩ := Option.isSome_iff_exists.mp hflags
  have hst := stored_of_flags hflags
  exact ⟨_, mem_table.mpr ⟨row, hrow, hst⟩, hid, hun⟩

/-- **A message that was not modified keeps its row in a run, whatever else fails.** -/
theorem Inv.holds_syncContents (h : Inv home s.uidnext s) (hof : q.Of home) (hroom : Room s q)
    (hfind : ∀ id, q.answers.ok (.findStored id)) (hm : m ∈ s.messages) (hspares : q.Spares m) :
    (s.syncContents q).2.Holds m := by
  have hholds : s.Holds m := ⟨m, hm, rfl, rfl, rfl⟩
  rcases s.syncContents_cases q with ⟨done, heq, -⟩ | ⟨n, hn, hnodup, heq⟩
  · rw [heq]
    exact hholds
  rw [Nat.mod_eq_of_lt (by have := hroom n hn; omega)] at heq
  have hloop := h.loops hof hroom hn
    (List.takeWhile_sublist fun r => q.answers.ok (.next r.messageId))
  obtain ⟨hrun, -⟩ := hloop.running.foldl (a := q.answers) hloop.room hloop.home
  have hkept := hloop.running.induct (a := q.answers) (P := fun p => p.2.Holds m) hloop.room
    hloop.home (fun p r hr hp hholds => hholds.syncRow hp.nodup fun hid => by
      have hr := List.takeWhile_subset _ hr
      obtain ⟨r', hr', hid', hun⟩ := hspares.stored (by
        rw [← h.home m hm, ← hid]
        exact hof.table hr)
      rwa [List.inj_on_of_nodup_map hnodup hr hr' (hid.trans hid'.symm)]) hholds
  rw [heq]
  cases hlist : q.answers.ok .list with
  | false =>
    rw [Index.messages_finish_of_not n hlist]
    exact hkept
  | true =>
    obtain ⟨m', hm', hsame⟩ := hkept
    refine ⟨m', ?_, hsame⟩
    rw [Index.messages_finish n hlist]
    refine Index.mem_removeAll_of_notMem hm' fun hgone => ?_
    obtain ⟨⟨m₁, hm₁, hid₁, hf₁⟩, hfound⟩ := Index.mem_gone hgone
    obtain rfl : m₁ = m' := List.inj_on_of_nodup_map hrun.nodup hm₁ hm' hid₁
    obtain ⟨r, hr, hid, -⟩ := hspares.stored
      ((congrArg Prod.fst hsame.2.1).symm.trans hf₁)
    rcases hfound with hfound | hfound
    · exact absurd (hfind m₁.messageId) (by simp [hfound])
    · exact hfound r hr (hid.trans hsame.1.symm)

/-- The row of the message has the flags of the store, or the message could not be exported. -/
def Reported (a : Answers) (f : ℕ) (s : Index) (r : Stored) : Prop :=
  (∃ m ∈ s.messages, m.messageId = r.messageId ∧ m.folderId = f ∧
    m.unsent = isUnsent r.messageFlags ∧ m.read = isRead r.messageFlags) ∨
  (a.ok (.export r.messageId) = false ∧ ∀ m ∈ s.messages, m.messageId ≠ r.messageId)

lemma Reported.congr (h : Reported a f s r)
    (hmem : ∀ m, m.messageId = r.messageId → (m ∈ t.messages ↔ m ∈ s.messages)) :
    Reported a f t r := by
  rcases h with ⟨m, hm, hid, hrest⟩ | ⟨hexport, hnone⟩
  · exact .inl ⟨m, (hmem m hid).mpr hm, hid, hrest⟩
  · exact .inr ⟨hexport, fun m hm hid => hnone m ((hmem m hid).mp hm) hid⟩

/-- The calls whose failure `mail_engine_sync_contents` does not notice. -/
def Call.Unnoticed : Call → Prop
  | .readUidnext | .next _ | .find _ | .insert _ | .update _ | .delete _ | .nextIndexed _
  | .findStored _ => True
  | _ => False

/-- No other row has the `mid_string` of the message. -/
def NameFree (a : Answers) (s : Index) (r : Stored) : Prop :=
  ∀ m ∈ s.messages, m.midString = r.name a → m.messageId = r.messageId

namespace Index

lemma reported_insertMessage {mid : Option String} (hok : a.ok (.insert r.messageId))
    (hnone : ∀ m ∈ p.2.messages, m.messageId ≠ r.messageId)
    (hname : ∀ m ∈ p.2.messages, m.midString ≠ mid.getD (a.made r.messageId)) :
    Reported a f (insertMessage a f r mid p).2 r := by
  unfold insertMessage
  cases hexport : a.ok (.export r.messageId) with
  | false => exact .inr ⟨hexport, hnone⟩
  | true =>
    refine .inl ⟨⟨r.messageId, f, mid.getD (a.made r.messageId), r.modTime, next32 p.1,
      isUnsent r.messageFlags, isRead r.messageFlags, r.received⟩, ?_, rfl, rfl, rfl, rfl⟩
    rw [if_pos rfl, if_pos hok]
    unfold insert
    rw [if_pos]
    · exact List.mem_append_right _ (List.mem_singleton_self _)
    · refine List.all_eq_true.mpr fun m hm => ?_
      simpa using And.intro (hnone m hm) (hname m hm)

lemma reported_syncRow (hok : ∀ c, c.Unnoticed → a.ok c)
    (hhome : ∀ m ∈ p.2.messages, m.messageId = r.messageId → m.folderId = f)
    (hfree : NameFree a p.2 r) : Reported a f (syncRow a f p r).2 r := by
  unfold syncRow
  have hfound : found a p.2 r.messageId = p.2.message? r.messageId := if_pos (hok (.find _) trivial)
  rw [hfound]
  cases hm : p.2.message? r.messageId with
  | none =>
    have hnone := message?_eq_none.mp hm
    exact reported_insertMessage (hok (.insert _) trivial) hnone fun m hmem hname =>
      hnone m hmem (hfree m hmem hname)
  | some m =>
    obtain ⟨hmem, hid⟩ := mem_of_message? hm
    dsimp only
    unfold syncMessage
    rw [if_pos (hok (.update _) trivial), if_pos (hok (.delete _) trivial)]
    split_ifs with hun hflags
    · refine .inl ⟨_, List.mem_map_of_mem hmem, ?_⟩
      rw [if_pos hid]
      exact ⟨hid, hhome m hmem hid, rfl, rfl⟩
    · rw [not_or, not_not, not_not] at hflags
      exact .inl ⟨m, hmem, hid, hhome m hmem hid, hflags.1, hflags.2⟩
    · have hmid : r.midString = none := by
        rw [not_or, Option.not_isSome_iff_eq_none] at hun
        exact hun.1
      refine reported_insertMessage (hok (.insert _) trivial) (fun m' hm' => (mem_delete.mp hm').2) ?_
      intro m' hm' hname
      obtain ⟨hm', hne⟩ := mem_delete.mp hm'
      exact hne (hfree m' hm' (by rw [hname, Stored.name, hmid]))

lemma midString_insertMessage {mid : Option String}
    (hm : m ∈ (insertMessage a f r mid p).2.messages) : m ∈ p.2.messages ∨
      m.messageId = r.messageId ∧ m.midString = mid.getD (a.made r.messageId) := by
  unfold insertMessage at hm
  split at hm
  · dsimp only at hm
    split at hm
    · unfold insert at hm
      split at hm
      · rcases List.mem_append.mp hm with hm | hm
        · exact .inl hm
        · obtain rfl := List.mem_singleton.mp hm
          exact .inr ⟨rfl, rfl⟩
      · exact .inl hm
    · exact .inl hm
  · exact .inl hm

/-- A turn brings in no `mid_string` but that of its message. -/
lemma midString_syncRow (hm : m ∈ (syncRow a f p r).2.messages) :
    (∃ m₀ ∈ p.2.messages, m₀.messageId = m.messageId ∧ m₀.midString = m.midString) ∨
      m.messageId = r.messageId ∧ m.midString = r.name a := by
  unfold syncRow at hm
  split at hm
  · rcases midString_insertMessage hm with hm | hm
    · exact .inl ⟨m, hm, rfl, rfl⟩
    · exact .inr hm
  · unfold syncMessage at hm
    split_ifs at hm with hun
    · obtain ⟨m₀, hm₀, rfl⟩ := List.mem_map.mp hm
      refine .inl ⟨m₀, hm₀, ?_⟩
      split
      · exact ⟨rfl, rfl⟩
      · exact ⟨rfl, rfl⟩
    · exact .inl ⟨m, hm, rfl, rfl⟩
    · exact .inl ⟨m, hm, rfl, rfl⟩
    · have hmid : r.midString = none := by
        rw [not_or, Option.not_isSome_iff_eq_none] at hun
        exact hun.1
      rcases midString_insertMessage hm with hm | hm
      · exact .inl ⟨m, (mem_delete.mp hm).1, rfl, rfl⟩
      · refine .inr ⟨hm.1, ?_⟩
        rw [Stored.name, hmid]
        exact hm.2
    · exact .inl ⟨m, hm, rfl, rfl⟩

lemma nameFree_syncRow (h : NameFree a p.2 r')
    (hne : r.name a = r'.name a → r.messageId = r'.messageId) :
    NameFree a (syncRow a f p r).2 r' := by
  intro m hm hname
  rcases midString_syncRow hm with ⟨m₀, hm₀, hid, hmid⟩ | ⟨hid, hmid⟩
  · rw [← hid]
    exact h m₀ hm₀ (hmid.trans hname)
  · rw [hid]
    exact hne (hmid.symm.trans hname)

lemma mem_foldl_of_ne (hne : ∀ r ∈ rows, m.messageId ≠ r.messageId) :
    m ∈ (rows.foldl (syncRow a f) p).2.messages ↔ m ∈ p.2.messages := by
  induction rows generalizing p with
  | nil => rfl
  | cons r rest ih =>
    rw [List.foldl_cons, ih fun r' hr' => hne r' (List.mem_cons_of_mem _ hr'),
      mem_syncRow_of_ne (hne r (List.mem_cons_self ..))]

end Index

lemma Running.reported (h : Running home b f p) (hroom : p.1 + 2 * rows.length < 2 ^ 32)
    (hhome : ∀ r ∈ rows, home r.messageId = f) (hnodup : (rows.map (·.messageId)).Nodup)
    (hok : ∀ c : Call, c.Unnoticed → a.ok c) (hfree : ∀ r ∈ rows, NameFree a p.2 r)
    (hnames : ∀ r ∈ rows, ∀ r' ∈ rows, r.name a = r'.name a → r.messageId = r'.messageId) :
    ∀ r ∈ rows, Reported a f (rows.foldl (Index.syncRow a f) p).2 r := by
  induction rows generalizing p with
  | nil => simp
  | cons r rest ih =>
    rw [List.length_cons] at hroom
    rw [List.map_cons, List.nodup_cons] at hnodup
    have hmem : ∀ r' ∈ rest, r' ∈ r :: rest := fun r' hr' => List.mem_cons_of_mem _ hr'
    obtain ⟨hr, -, hle⟩ := h.syncRow (a := a) (by omega) (hhome r (List.mem_cons_self ..))
    intro r' hr'
    rw [List.foldl_cons]
    rcases List.mem_cons.mp hr' with rfl | hr'
    · have hreported : Reported a f (Index.syncRow a f p r').2 r' :=
        Index.reported_syncRow hok (fun m hm hid => by
          rw [← h.home m hm, hid, hhome r' (List.mem_cons_self ..)])
          (hfree r' (List.mem_cons_self ..))
      refine hreported.congr fun m hid => Index.mem_foldl_of_ne fun r hr heq => ?_
      exact hnodup.1 (List.mem_map.mpr ⟨r, hr, by rw [← heq, hid]⟩)
    · refine ih hr (by omega) (fun r hr => hhome r (hmem r hr)) hnodup.2 (fun r'' hr'' => ?_)
        (fun r₁ h₁ r₂ h₂ => hnames r₁ (hmem r₁ h₁) r₂ (hmem r₂ h₂)) r' hr'
      exact Index.nameFree_syncRow (hfree r'' (hmem r'' hr''))
        (hnames r (List.mem_cons_self ..) r'' (hmem r'' hr''))

/-- No call fails unnoticed, the store reports the flags of every message, and the names of the
messages are apart. -/
structure Reliable (s : Index) (q : Sync) : Prop where
  ok : ∀ c : Call, c.Unnoticed → q.answers.ok c
  complete : ∀ row ∈ q.rows, row.messageFlags.isSome
  free : ∀ r ∈ table q.rows, NameFree q.answers s r
  names : ∀ r ∈ table q.rows, ∀ r' ∈ table q.rows,
    r.name q.answers = r'.name q.answers → r.messageId = r'.messageId

/-- The rows of the folder are the messages of the store that could be exported, with their
flags. -/
structure Exact (s : Index) (q : Sync) : Prop where
  stored : ∀ m ∈ s.messages, m.folderId = q.folderId → ∃ row ∈ q.rows, row.messageId = m.messageId
  indexed : ∀ row ∈ q.rows, ∀ flags, row.messageFlags = some flags →
    (∃ m ∈ s.messages, m.messageId = row.messageId ∧ m.folderId = q.folderId ∧
      m.unsent = isUnsent flags ∧ m.read = isRead flags) ∨
    (q.answers.ok (.export row.messageId) = false ∧
      ∀ m ∈ s.messages, m.messageId ≠ row.messageId)

/-- **After a run that succeeds, and in which nothing fails unnoticed, the rows of the folder are
the messages of the store.** -/
theorem Inv.exact_syncContents (h : Inv home s.uidnext s) (hof : q.Of home) (hroom : Room s q)
    (hrel : Reliable s q) (hfolder : (s.uidnext q.folderId).isSome)
    (hdone : (s.syncContents q).1 = true) : Exact (s.syncContents q).2 q := by
  rcases s.syncContents_cases q with ⟨done, heq, hwhy⟩ | ⟨n, hn, hnodup, heq⟩
  · rw [heq] at hdone
    rcases hwhy hdone with hread | hnone
    · exact absurd (hrel.ok .readUidnext trivial) (by simp [hread])
    · rw [hnone] at hfolder
      exact absurd hfolder (by simp)
  rw [Nat.mod_eq_of_lt (by have := hroom n hn; omega)] at heq
  have hloop := h.loops hof hroom hn (List.Sublist.refl (table q.rows))
  have hreported := hloop.running.reported hloop.room hloop.home hnodup hrel.ok hrel.free hrel.names
  have hall : Index.syncRows q.answers q.folderId (n, s) (table q.rows) =
      (table q.rows).foldl (Index.syncRow q.answers q.folderId) (n, s) := by
    rw [Index.syncRows, List.takeWhile_eq_self_iff.mpr fun r _ => hrel.ok (.next _) trivial]
  rw [heq, hall] at hdone ⊢
  generalize (table q.rows).foldl (Index.syncRow q.answers q.folderId) (n, s) = p
    at hreported hdone
  have hlist : q.answers.ok .list := by
    by_contra hlist
    rw [Index.messages_finish_of_not n (by simpa using hlist)] at hdone
    exact absurd hdone (by simp)
  have hremoved : (Index.removeAll q.answers p.2
      (Index.gone q.answers q.folderId (table q.rows) p.2)).1 = true := by
    by_contra hremoved
    unfold Index.finish at hdone
    rw [if_pos hlist, if_neg hremoved] at hdone
    exact absurd hdone (by simp)
  have hkeep : ∀ r ∈ table q.rows,
      r.messageId ∉ Index.gone q.answers q.folderId (table q.rows) p.2 := by
    intro r hr hgone
    rcases (Index.mem_gone hgone).2 with hfound | hfound
    · exact absurd (hrel.ok (.findStored r.messageId) trivial) (by simp [hfound])
    · exact hfound r hr rfl
  constructor
  · intro m hm hf
    rw [Index.messages_finish n hlist] at hm
    by_contra hno
    refine Index.notMem_of_mem_removeAll hremoved hm (Index.mem_gone_of_ok
      (Index.mem_of_mem_removeAll hm) hf (fun id => hrel.ok (.nextIndexed id) trivial) fun r hr hid => hno ?_)
    obtain ⟨row, hrow, hst⟩ := mem_table.mp hr
    exact ⟨row, hrow, by rw [← stored_messageId hst, hid]⟩
  · intro row hrow flags hflags
    have hr := mem_table.mpr ⟨row, hrow, stored_of_flags hflags⟩
    refine (hreported _ hr).congr fun m hid => ?_
    rw [Index.messages_finish n hlist]
    refine ⟨Index.mem_of_mem_removeAll, fun hm => Index.mem_removeAll_of_notMem hm ?_⟩
    rw [hid]
    exact hkeep _ hr

end SteepSystem.MailEngine
