import SteepSystem.Lib.Numbering
import SteepSystem.MailEngine.Model

/-!
The uids of the index. `Inv` relates the rows, the uids given out and a counter for each folder;
inside a run the counter of its folder is the local one, outside it is the column `uidnext`.
-/

namespace SteepSystem.MailEngine

open SteepSystem.Lib.Numbering

variable {home : ℕ → ℕ} {b : ℕ → Option ℕ} {s t : Index} {a : Answers} {f n id : ℕ}
  {m : Message} {r : Stored} {p : ℕ × Index}

/-- The folder and the uid of a row. -/
def Message.numbered (m : Message) : ℕ × ℕ := (m.folderId, m.uid)

/-- The rows are a part of what was given out, each in the folder of its message. -/
structure Inv (home : ℕ → ℕ) (b : ℕ → Option ℕ) (s : Index) : Prop where
  nodup : (s.messages.map (·.messageId)).Nodup
  home : ∀ m ∈ s.messages, home m.messageId = m.folderId
  held : (s.messages.map Message.numbered).Sublist s.given
  numbered : Numbered b s.given

namespace Index

@[simp] lemma messages_setUidnext : (s.setUidnext f n).messages = s.messages := rfl

@[simp] lemma given_setUidnext : (s.setUidnext f n).given = s.given := rfl

@[simp] lemma uidnext_setUidnext :
    (s.setUidnext f n).uidnext = Function.update s.uidnext f (some n) := rfl

@[simp] lemma uidnext_delete : (s.delete id).uidnext = s.uidnext := rfl

@[simp] lemma given_delete : (s.delete id).given = s.given := rfl

@[simp] lemma uidnext_updateFlags {flags : UInt32} :
    (s.updateFlags id flags).uidnext = s.uidnext := rfl

@[simp] lemma given_updateFlags {flags : UInt32} :
    (s.updateFlags id flags).given = s.given := rfl

@[simp] lemma uidnext_insert : (s.insert m).uidnext = s.uidnext := by
  unfold insert
  split <;> rfl

@[simp] lemma uidnext_insertMessage {mid : Option String} :
    (insertMessage a f r mid p).2.uidnext = p.2.uidnext := by
  unfold insertMessage
  split
  · dsimp only
    split <;> simp
  · rfl

@[simp] lemma uidnext_syncMessage : (syncMessage a f m r p).2.uidnext = p.2.uidnext := by
  unfold syncMessage
  split_ifs <;> simp

@[simp] lemma uidnext_syncRow : (syncRow a f p r).2.uidnext = p.2.uidnext := by
  unfold syncRow
  split <;> simp

@[simp] lemma uidnext_foldl_syncRow {rows : List Stored} :
    (rows.foldl (syncRow a f) p).2.uidnext = p.2.uidnext := by
  induction rows generalizing p with
  | nil => rfl
  | cons r rest ih => rw [List.foldl_cons, ih, uidnext_syncRow]

lemma removeAll_uidnext {ids : List ℕ} : (removeAll a s ids).2.uidnext = s.uidnext := by
  induction ids generalizing s with
  | nil => rfl
  | cons id rest ih =>
    unfold removeAll
    split
    · rw [ih, uidnext_delete]
    · rfl

lemma removeAll_given {ids : List ℕ} : (removeAll a s ids).2.given = s.given := by
  induction ids generalizing s with
  | nil => rfl
  | cons id rest ih =>
    unfold removeAll
    split
    · rw [ih, given_delete]
    · rfl

end Index

open Index

lemma Inv.setUidnext (h : Inv home b s) : Inv home b (s.setUidnext f n) :=
  ⟨h.nodup, h.home, h.held, h.numbered⟩

lemma Inv.delete (h : Inv home b s) (id : ℕ) : Inv home b (s.delete id) where
  nodup := h.nodup.sublist (List.filter_sublist.map _)
  home m hm := h.home m (List.mem_of_mem_filter hm)
  held := (List.filter_sublist.map _).trans h.held
  numbered := h.numbered

lemma Inv.updateFlags (h : Inv home b s) (id : ℕ) (flags : UInt32) :
    Inv home b (s.updateFlags id flags) := by
  have hmap : ∀ {β : Type} (g : Message → β),
      (∀ m : Message, g { m with unsent := isUnsent flags, read := isRead flags } = g m) →
      (s.updateFlags id flags).messages.map g = s.messages.map g := by
    intro β g hg
    rw [Index.updateFlags, List.map_map]
    refine List.map_congr_left fun m _ => ?_
    rw [Function.comp_apply]
    split
    · rw [hg]
    · rfl
  refine ⟨by rw [hmap _ fun _ => rfl]; exact h.nodup, ?_,
    by rw [hmap _ fun _ => rfl]; exact h.held, h.numbered⟩
  intro m hm
  obtain ⟨m', hm', rfl⟩ := List.mem_map.mp hm
  split
  · exact h.home m' hm'
  · exact h.home m' hm'

lemma Inv.raise (h : Inv home b s) (hn : b f = some n) {u : ℕ} (hle : n ≤ u) :
    Inv home (Function.update b f (some u)) s :=
  ⟨h.nodup, h.home, h.held, h.numbered.raise hn hle⟩

lemma Inv.insert (h : Inv home b s) (hn : b m.folderId = some n) (hlt : n < m.uid)
    (hhome : home m.messageId = m.folderId) :
    Inv home (Function.update b m.folderId (some m.uid)) (s.insert m) := by
  unfold Index.insert
  split
  · rename_i hall
    refine ⟨?_, ?_, ?_, h.numbered.give hn hlt⟩
    · rw [List.map_append, List.map_singleton]
      refine List.Nodup.append h.nodup (List.nodup_singleton _) ?_
      intro id hid hid'
      obtain rfl := List.mem_singleton.mp hid'
      obtain ⟨m', hm', heq⟩ := List.mem_map.mp hid
      have hne := List.all_eq_true.mp hall m' hm'
      simp [heq] at hne
    · intro m' hm'
      rcases List.mem_append.mp hm' with hm' | hm'
      · exact h.home m' hm'
      · obtain rfl := List.mem_singleton.mp hm'
        exact hhome
    · rw [List.map_append]
      exact h.held.append (List.Sublist.refl _)
  · exact h.raise hn hlt.le

lemma Inv.start (home : ℕ → ℕ) : Inv home start.uidnext start :=
  ⟨List.nodup_nil, by simp [MailEngine.start], by simp [MailEngine.start], numbered_nil⟩

/-- Where a run stands: the counter of its folder is `p.1`. -/
def Running (home : ℕ → ℕ) (b : ℕ → Option ℕ) (f : ℕ) (p : ℕ × Index) : Prop :=
  Inv home (Function.update b f (some p.1)) p.2

lemma next32_eq (h : n + 1 < 2 ^ 32) : next32 n = n + 1 := Nat.mod_eq_of_lt h

lemma Running.advance (h : Running home b f p) {u : ℕ} (hle : p.1 ≤ u) :
    Running home b f (u, p.2) := by
  have hraise := Inv.raise h (Function.update_self ..) hle
  rwa [Function.update_idem] at hraise

lemma Running.insertMessage (h : Running home b f p) (hroom : p.1 + 1 < 2 ^ 32)
    (hhome : home r.messageId = f) (mid : Option String) :
    Running home b f (insertMessage a f r mid p) ∧ p.1 ≤ (insertMessage a f r mid p).1 ∧
      (insertMessage a f r mid p).1 ≤ p.1 + 1 := by
  unfold Index.insertMessage
  split
  · rw [next32_eq hroom]
    refine ⟨?_, by simp, le_rfl⟩
    split
    · have hins := Inv.insert (m := ⟨r.messageId, f, mid.getD (a.made r.messageId), r.modTime,
        p.1 + 1, isUnsent r.messageFlags, isRead r.messageFlags, r.received⟩) h
        (Function.update_self ..) (Nat.lt_succ_self _) hhome
      rw [Function.update_idem] at hins
      exact hins
    · exact h.advance (Nat.le_succ _)
  · exact ⟨h, le_rfl, Nat.le_succ _⟩

lemma Running.syncMessage (h : Running home b f p) (hroom : p.1 + 1 < 2 ^ 32)
    (hhome : home r.messageId = f) (m : Message) :
    Running home b f (syncMessage a f m r p) ∧ p.1 ≤ (syncMessage a f m r p).1 ∧
      (syncMessage a f m r p).1 ≤ p.1 + 1 := by
  unfold Index.syncMessage
  split_ifs
  · exact ⟨Inv.updateFlags h _ _, le_rfl, Nat.le_succ _⟩
  · exact ⟨h, le_rfl, Nat.le_succ _⟩
  · exact ⟨h, le_rfl, Nat.le_succ _⟩
  · exact Running.insertMessage (p := (p.1, p.2.delete r.messageId)) (Inv.delete h _) hroom hhome _
  · exact ⟨h, le_rfl, Nat.le_succ _⟩

lemma Running.syncRow (h : Running home b f p) (hroom : p.1 + 2 < 2 ^ 32)
    (hhome : home r.messageId = f) :
    Running home b f (syncRow a f p r) ∧ p.1 ≤ (syncRow a f p r).1 ∧
      (syncRow a f p r).1 ≤ p.1 + 2 := by
  unfold Index.syncRow
  split
  · rw [next32_eq (by omega)]
    obtain ⟨hr, hle, hle'⟩ := Running.insertMessage (a := a) (p := (p.1 + 1, p.2))
      (h.advance (Nat.le_succ _)) (by simpa using hroom) hhome r.midString
    exact ⟨hr, (Nat.le_succ _).trans hle, hle'⟩
  · rename_i m _
    obtain ⟨hr, hle, hle'⟩ := Running.syncMessage (a := a) h (by omega) hhome m
    exact ⟨hr, hle, hle'.trans (by omega)⟩

lemma Running.foldl {rows : List Stored} (h : Running home b f p)
    (hroom : p.1 + 2 * rows.length < 2 ^ 32) (hhome : ∀ r ∈ rows, home r.messageId = f) :
    Running home b f (rows.foldl (Index.syncRow a f) p) ∧
      p.1 ≤ (rows.foldl (Index.syncRow a f) p).1 := by
  induction rows generalizing p with
  | nil => exact ⟨h, le_rfl⟩
  | cons r rest ih =>
    rw [List.length_cons] at hroom
    obtain ⟨hr, hle, hle'⟩ := h.syncRow (a := a) (by omega) (hhome r (List.mem_cons_self ..))
    obtain ⟨hrun, hle''⟩ := ih hr (by omega) fun r' hr' => hhome r' (List.mem_cons_of_mem _ hr')
    exact ⟨hrun, hle.trans hle''⟩

lemma Inv.removeAll {ids : List ℕ} (h : Inv home b s) : Inv home b (removeAll a s ids).2 := by
  induction ids generalizing s with
  | nil => exact h
  | cons id rest ih =>
    unfold Index.removeAll
    split
    · exact ih (h.delete id)
    · exact h

end SteepSystem.MailEngine
