import SteepSystem.Lib.Runs
import SteepSystem.MailEngine.Contents

/-!
Histories of the index: runs of `mail_engine_sync_contents`, inside a `mail_engine_sync_mailbox`
or for a copied folder, and notifications about messages. A run for a copied folder is in no
transaction: where it fails after its loop, the uids it gave out stay and the column `uidnext`
does not pass them.
-/

namespace SteepSystem.MailEngine

open SteepSystem.Lib.Numbering SteepSystem.Lib.Runs

variable {home : ℕ → ℕ} {b : ℕ → Option ℕ} {s t u : Index} {a : Answers} {f n id : ℕ}
  {m m' : Message} {r : Stored} {rows : List Stored} {p : ℕ × Index} {q : Sync} {op : Op}

/-- `t` has given out more than `s`, and its rows are rows of `s` or newly numbered. -/
def Index.Extends (s t : Index) : Prop := ∃ new, t.given = s.given ++ new ∧ ∀ m ∈ t.messages,
  (∃ m' ∈ s.messages, m'.messageId = m.messageId ∧ m'.numbered = m.numbered) ∨ m.numbered ∈ new

namespace Index

lemma Extends.of_mem (hgiven : t.given = s.given) (hmem : ∀ m ∈ t.messages,
    ∃ m' ∈ s.messages, m'.messageId = m.messageId ∧ m'.numbered = m.numbered) : s.Extends t :=
  ⟨[], by rw [hgiven, List.append_nil], fun m hm => .inl (hmem m hm)⟩

lemma Extends.refl (s : Index) : s.Extends s := .of_mem rfl fun m hm => ⟨m, hm, rfl, rfl⟩

lemma Extends.trans (h : s.Extends t) (h' : t.Extends u) : s.Extends u := by
  obtain ⟨new, hgiven, hmem⟩ := h
  obtain ⟨new', hgiven', hmem'⟩ := h'
  refine ⟨new ++ new', by rw [hgiven', hgiven, List.append_assoc], fun m hm => ?_⟩
  rcases hmem' m hm with ⟨m', hm', hid, hnum⟩ | hnew
  · rcases hmem m' hm' with ⟨m'', hm'', hid', hnum'⟩ | hnew
    · exact .inl ⟨m'', hm'', hid'.trans hid, hnum'.trans hnum⟩
    · exact .inr (List.mem_append_left _ (hnum ▸ hnew))
  · exact .inr (List.mem_append_right _ hnew)

lemma extends_setUidnext : s.Extends (s.setUidnext f n) :=
  .of_mem rfl fun m hm => ⟨m, hm, rfl, rfl⟩

lemma extends_delete (id : ℕ) : s.Extends (s.delete id) :=
  .of_mem rfl fun m hm => ⟨m, (mem_delete.mp hm).1, rfl, rfl⟩

lemma extends_updateFlags {flags : UInt32} : s.Extends (s.updateFlags id flags) := by
  refine .of_mem rfl fun m hm => ?_
  obtain ⟨m', hm', rfl⟩ := List.mem_map.mp hm
  refine ⟨m', hm', ?_⟩
  split
  · exact ⟨rfl, rfl⟩
  · exact ⟨rfl, rfl⟩

lemma extends_insert : s.Extends (s.insert m) := by
  unfold insert
  split
  · refine ⟨[m.numbered], rfl, fun m' hm' => ?_⟩
    rcases List.mem_append.mp hm' with hm' | hm'
    · exact .inl ⟨m', hm', rfl, rfl⟩
    · obtain rfl := List.mem_singleton.mp hm'
      exact .inr (List.mem_singleton_self _)
  · exact .refl s

lemma extends_insertMessage {mid : Option String} :
    p.2.Extends (insertMessage a f r mid p).2 := by
  unfold insertMessage
  split
  · dsimp only
    split
    · exact extends_insert
    · exact .refl _
  · exact .refl _

lemma extends_syncRow : p.2.Extends (syncRow a f p r).2 := by
  unfold syncRow
  split
  · exact extends_insertMessage (p := (next32 p.1, p.2))
  · unfold syncMessage
    split_ifs
    · exact extends_updateFlags
    · exact .refl _
    · exact .refl _
    · exact (extends_delete r.messageId).trans
        (extends_insertMessage (p := (p.1, p.2.delete r.messageId)))
    · exact .refl _

lemma extends_foldl : p.2.Extends (rows.foldl (syncRow a f) p).2 := by
  induction rows generalizing p with
  | nil => exact .refl _
  | cons r rest ih => exact extends_syncRow.trans ih

lemma extends_removeAll {ids : List ℕ} : s.Extends (removeAll a s ids).2 := by
  induction ids generalizing s with
  | nil => exact .refl _
  | cons id rest ih =>
    unfold removeAll
    split
    · exact (extends_delete id).trans ih
    · exact .refl _

lemma extends_finish : p.2.Extends (finish a f n rows p).2 := by
  unfold finish
  split_ifs
  · exact extends_removeAll.trans extends_setUidnext
  · exact extends_removeAll
  · exact extends_removeAll
  · exact extends_removeAll
  · exact .refl _

lemma extends_syncContents (s : Index) (q : Sync) : s.Extends (s.syncContents q).2 := by
  rcases s.syncContents_cases q with ⟨done, heq, -⟩ | ⟨n, -, -, heq⟩
  · rw [heq]
    exact .refl s
  · rw [heq, syncRows]
    exact (extends_foldl (p := (n % 2 ^ 32, s))).trans extends_finish

lemma extends_syncAll (s : Index) (runs : List Sync) : s.Extends (s.syncAll runs).2 := by
  induction runs generalizing s with
  | nil => exact .refl s
  | cons q rest ih =>
    unfold syncAll
    split
    · exact (extends_syncContents s q).trans (ih _)
    · exact extends_syncContents s q

lemma extends_addNotificationMessage (s : Index) (f id : ℕ) (v : Seen) :
    s.Extends (s.addNotificationMessage f id v) := by
  unfold addNotificationMessage
  split
  · exact .refl s
  · split
    · exact .refl s
    · split
      · rename_i uidnext _ _
        exact extends_setUidnext.trans (extends_insertMessage
          (p := (uidnext % 2 ^ 32, s.setUidnext f (uidnext + 1))))
      · exact .refl s

lemma extends_notifyFlags {props : Props} : s.Extends (s.notifyFlags id props a) := by
  unfold notifyFlags
  split
  · exact extends_updateFlags
  · exact .refl s

lemma extends_deleteNotificationMessage (s : Index) (f id : ℕ) (a : Answers) :
    s.Extends (s.deleteNotificationMessage f id a) := by
  unfold deleteNotificationMessage
  split
  · exact .refl s
  · split
    · exact extends_delete id
    · exact .refl s

lemma extends_step (s : Index) (op : Op) : s.Extends (s.step op) := by
  cases op with
  | addFolder f =>
    change s.Extends (s.addFolder f)
    unfold addFolder
    split
    · exact .refl s
    · exact extends_setUidnext
  | syncMailbox runs completes =>
    change s.Extends (s.syncMailbox runs completes)
    unfold syncMailbox
    split
    · exact extends_syncAll s runs
    · exact .refl s
  | folderCopied q => exact extends_syncContents s q
  | created f id v => exact extends_addNotificationMessage s f id v
  | moved oldF oldId f id a v =>
    exact (extends_deleteNotificationMessage s oldF oldId a).trans
      (extends_addNotificationMessage _ f id v)
  | modified f id v again =>
    change s.Extends (s.modifyNotificationMessage f id v again)
    unfold modifyNotificationMessage
    split
    · exact .refl s
    · split
      · exact extends_notifyFlags
      · split
        · exact .refl s
        · split
          · exact extends_notifyFlags
          · split
            · exact (extends_delete id).trans (extends_addNotificationMessage _ f id again)
            · exact .refl s
  | deleted f id a => exact extends_deleteNotificationMessage s f id a

end Index

/-- `P` holds of every run of a `mail_engine_sync_mailbox` that is started. -/
def EachRun (P : Index → Sync → Prop) : Index → List Sync → Prop
  | _, [] => True
  | s, q :: rest => P s q ∧ ((s.syncContents q).1 = true → EachRun P (s.syncContents q).2 rest)

/-- The store has every message in one folder for all time. -/
def Promised (home : ℕ → ℕ) : Op → Prop
  | .addFolder _ => True
  | .syncMailbox runs _ => ∀ q ∈ runs, q.Of home
  | .folderCopied q => q.Of home
  | .created folderId messageId _ => home messageId = folderId
  | .moved _ _ folderId messageId _ _ => home messageId = folderId
  | .modified folderId messageId _ _ => home messageId = folderId
  | .deleted _ _ _ => True

/-- A notification can number one message more. -/
def Index.HasRoom (s : Index) (folderId : ℕ) : Prop :=
  ∀ n, s.uidnext folderId = some n → n + 1 < 2 ^ 32

/-- The counters have room, and a run for a copied folder writes back what it numbered. -/
def Written (s : Index) : Op → Prop
  | .addFolder _ => True
  | .syncMailbox runs _ => EachRun Room s runs
  | .folderCopied q => Room s q ∧ (q.Finishes ∨ Settled s q)
  | .created folderId _ _ => s.HasRoom folderId
  | .moved _ _ folderId _ _ _ => s.HasRoom folderId
  | .modified folderId _ _ _ => s.HasRoom folderId
  | .deleted _ _ _ => True

lemma Inv.addNotificationMessage (h : Inv home s.uidnext s) (hhome : home id = f)
    (hroom : s.HasRoom f) (v : Seen) :
    Inv home (s.addNotificationMessage f id v).uidnext (s.addNotificationMessage f id v) := by
  unfold Index.addNotificationMessage
  split
  · exact h
  · rename_i props _
    split
    · exact h
    · rename_i n hn
      split
      · have hn : s.uidnext f = some n := by
          split at hn
          · exact hn
          · exact absurd hn (by simp)
        have hsmall := hroom n hn
        have hrun : Running home s.uidnext f (n, s.setUidnext f (n + 1)) := by
          unfold Running
          rw [← hn, Function.update_eq_self]
          exact h.setUidnext
        unfold Index.addNumbered
        rw [Nat.mod_eq_of_lt (by omega : n < 2 ^ 32)]
        obtain ⟨hins, -, hle⟩ := hrun.insertMessage (a := v.answers) (r := props.stored id)
          hsmall hhome (props.stored id).midString
        have hadv := hins.advance hle
        rw [Index.uidnext_insertMessage]
        exact hadv
      · exact h

lemma Inv.notifyFlags (h : Inv home b s) (id : ℕ) (props : Props) (a : Answers) :
    Inv home b (s.notifyFlags id props a) := by
  unfold Index.notifyFlags
  split
  · exact h.updateFlags id props.flags
  · exact h

lemma uidnext_notifyFlags {props : Props} : (s.notifyFlags id props a).uidnext = s.uidnext := by
  unfold Index.notifyFlags
  split <;> rfl

lemma Inv.deleteNotificationMessage (h : Inv home b s) (f id : ℕ) (a : Answers) :
    Inv home b (s.deleteNotificationMessage f id a) := by
  unfold Index.deleteNotificationMessage
  split
  · exact h
  · split
    · exact h.delete id
    · exact h

lemma uidnext_deleteNotificationMessage :
    (s.deleteNotificationMessage f id a).uidnext = s.uidnext := by
  unfold Index.deleteNotificationMessage
  split
  · rfl
  · split <;> rfl

lemma Inv.syncAll {runs : List Sync} (h : Inv home s.uidnext s) (hof : ∀ q ∈ runs, q.Of home)
    (hroom : EachRun Room s runs) (hdone : (s.syncAll runs).1 = true) :
    Inv home (s.syncAll runs).2.uidnext (s.syncAll runs).2 := by
  induction runs generalizing s with
  | nil => exact h
  | cons q rest ih =>
    obtain ⟨hq, hrest⟩ := hroom
    unfold Index.syncAll at hdone ⊢
    cases hrun : (s.syncContents q).1 with
    | true =>
      rw [if_pos hrun] at hdone
      exact ih (h.syncContents (hof q (List.mem_cons_self ..)) hq (.inl hrun))
        (fun q' hq' => hof q' (List.mem_cons_of_mem _ hq')) (hrest hrun) hdone
    | false =>
      rw [if_neg (by simp [hrun]), hrun] at hdone
      exact absurd hdone (by simp)

/-- Every operation keeps the counters above what was given out. -/
lemma Inv.step (h : Inv home s.uidnext s) (hop : Promised home op) (hwritten : Written s op) :
    Inv home (s.step op).uidnext (s.step op) := by
  cases op with
  | addFolder f =>
    change Inv home (s.addFolder f).uidnext (s.addFolder f)
    unfold Index.addFolder
    split
    · exact h
    · rename_i hnone
      refine ⟨h.nodup, h.home, h.held, h.numbered.ascends, fun e he => ?_⟩
      obtain ⟨n, hn, hle⟩ := h.numbered.covered e he
      refine ⟨n, ?_, hle⟩
      rw [Index.uidnext_setUidnext, Function.update_of_ne, hn]
      rintro rfl
      exact hnone (by rw [hn]; rfl)
  | syncMailbox runs completes =>
    change Inv home (s.syncMailbox runs completes).uidnext (s.syncMailbox runs completes)
    unfold Index.syncMailbox
    split
    · rename_i hdone
      rw [Bool.and_eq_true] at hdone
      exact h.syncAll hop hwritten hdone.1
    · exact h
  | folderCopied q => exact h.syncContents hop hwritten.1 (.inr hwritten.2)
  | created f id v => exact h.addNotificationMessage hop hwritten v
  | moved oldF oldId f id a v =>
    have hdel := h.deleteNotificationMessage oldF oldId a
    have hsame := @uidnext_deleteNotificationMessage s a oldF oldId
    rw [← hsame] at hdel
    refine hdel.addNotificationMessage hop (fun n hn => ?_) v
    rw [uidnext_deleteNotificationMessage] at hn
    exact hwritten n hn
  | modified f id v again =>
    change Inv home (s.modifyNotificationMessage f id v again).uidnext
      (s.modifyNotificationMessage f id v again)
    unfold Index.modifyNotificationMessage
    split
    · exact h
    · split
      · rw [uidnext_notifyFlags]
        exact h.notifyFlags ..
      · split
        · exact h
        · split
          · rw [uidnext_notifyFlags]
            exact h.notifyFlags ..
          · split
            · have hdel : Inv home (s.delete id).uidnext (s.delete id) := h.delete id
              exact hdel.addNotificationMessage hop hwritten again
            · exact h
  | deleted f id a =>
    change Inv home (s.deleteNotificationMessage f id a).uidnext
      (s.deleteNotificationMessage f id a)
    rw [uidnext_deleteNotificationMessage]
    exact h.deleteNotificationMessage f id a

/-- The uids of each folder are apart, given out in ascending order, and at most `uidnext`. -/
structure Ordered (s : Index) : Prop where
  distinct : s.messages.Pairwise fun m m' => m.folderId = m'.folderId → m.uid ≠ m'.uid
  given : ∀ m ∈ s.messages, (m.folderId, m.uid) ∈ s.given
  ascends : s.given.Pairwise fun e e' => e.1 = e'.1 → e.2 < e'.2
  covered : ∀ e ∈ s.given, ∃ n, s.uidnext e.1 = some n ∧ e.2 ≤ n

lemma Inv.ordered (h : Inv home s.uidnext s) : Ordered s where
  distinct := List.pairwise_map.mp (h.numbered.ascends.injOn_of_sublist h.held)
  given _ hm := h.held.subset (List.mem_map_of_mem hm)
  ascends := h.numbered.ascends
  covered := h.numbered.covered

/-- What happens does not modify, move or delete the message. -/
def Unmodified (m : Message) : Op → Prop
  | .addFolder _ => True
  | .syncMailbox runs _ => ∀ q ∈ runs, q.Spares m
  | .folderCopied q => q.Spares m
  | .created _ _ _ => True
  | .moved _ oldMessageId _ _ _ _ => oldMessageId ≠ m.messageId
  | .modified _ messageId v _ => messageId = m.messageId →
      ∀ props, v.props = some props → props.midString.isSome ∨ props.modTime = m.modTime
  | .deleted _ messageId _ => messageId ≠ m.messageId

/-- The runs do not fail to find a message of the store in the table they have built. -/
def Looks : Op → Prop
  | .syncMailbox runs _ => ∀ q ∈ runs, ∀ id, q.answers.ok (.findStored id)
  | .folderCopied q => ∀ id, q.answers.ok (.findStored id)
  | _ => True

/-- If nothing fails unnoticed, a run that succeeds leaves the messages of the store. -/
def ExactRun (s : Index) (q : Sync) : Prop :=
  Reliable s q → (s.uidnext q.folderId).isSome → (s.syncContents q).1 = true →
    Exact (s.syncContents q).2 q

def ExactRuns (s : Index) : Op → Prop
  | .syncMailbox runs _ => EachRun ExactRun s runs
  | .folderCopied q => ExactRun s q
  | _ => True

/-- What an operation promises of the index it leaves. -/
structure Sound (s : Index) (op : Op) : Prop where
  ordered : Ordered (s.step op)
  fresh : ∀ m ∈ (s.step op).messages,
    (∃ m' ∈ s.messages, m'.messageId = m.messageId ∧ m'.numbered = m.numbered) ∨
      ∀ e ∈ s.given, e.1 = m.folderId → e.2 < m.uid
  keeps : Looks op → ∀ m ∈ s.messages, Unmodified m op → (s.step op).Holds m
  exact : ExactRuns s op

lemma Message.Same.trans {m m' m'' : Message} (h : m.Same m') (h' : m'.Same m'') : m.Same m'' :=
  ⟨h'.1.trans h.1, h'.2.1.trans h.2.1, h'.2.2.trans h.2.2⟩

lemma Sync.Spares.same (h : q.Spares m) (hsame : m.Same m') : q.Spares m' := by
  intro hf
  have hfolder : m.folderId = m'.folderId := congrArg Prod.fst hsame.2.1.symm
  rw [hsame.1, hsame.2.2]
  exact h (hfolder.trans hf)

lemma Inv.holds_syncAll {runs : List Sync} (h : Inv home s.uidnext s)
    (hof : ∀ q ∈ runs, q.Of home) (hroom : EachRun Room s runs)
    (hlooks : ∀ q ∈ runs, ∀ id, q.answers.ok (.findStored id)) (hm : m ∈ s.messages)
    (hspares : ∀ q ∈ runs, q.Spares m) : (s.syncAll runs).2.Holds m := by
  induction runs generalizing s m with
  | nil => exact ⟨m, hm, rfl, rfl, rfl⟩
  | cons q rest ih =>
    obtain ⟨hq, hrest⟩ := hroom
    have hfirst := h.holds_syncContents (hof q (List.mem_cons_self ..)) hq
      (hlooks q (List.mem_cons_self ..)) hm (hspares q (List.mem_cons_self ..))
    unfold Index.syncAll
    split
    · rename_i hrun
      obtain ⟨m', hm', hsame⟩ := hfirst
      obtain ⟨m'', hm'', hsame'⟩ := ih (h.syncContents (hof q (List.mem_cons_self ..)) hq
        (.inl hrun)) (fun q' hq' => hof q' (List.mem_cons_of_mem _ hq')) (hrest hrun)
        (fun q' hq' => hlooks q' (List.mem_cons_of_mem _ hq')) hm'
        (fun q' hq' => (hspares q' (List.mem_cons_of_mem _ hq')).same hsame)
      exact ⟨m'', hm'', hsame.trans hsame'⟩
    · exact hfirst

lemma Index.Holds.addNotificationMessage (h : s.Holds m) (f id : ℕ) (v : Seen) :
    (s.addNotificationMessage f id v).Holds m := by
  obtain ⟨m', hm', hsame⟩ := h
  unfold Index.addNotificationMessage
  split
  · exact ⟨m', hm', hsame⟩
  · split
    · exact ⟨m', hm', hsame⟩
    · split
      · rename_i uidnext _ _
        exact ⟨m', Index.mem_insertMessage_of_mem
          (p := (uidnext % 2 ^ 32, s.setUidnext f (uidnext + 1))) hm', hsame⟩
      · exact ⟨m', hm', hsame⟩

lemma holds_deleteNotificationMessage (hm : m ∈ s.messages) (hne : id ≠ m.messageId) :
    (s.deleteNotificationMessage f id a).Holds m := by
  refine ⟨m, ?_, rfl, rfl, rfl⟩
  unfold Index.deleteNotificationMessage
  split
  · exact hm
  · split
    · exact Index.mem_delete.mpr ⟨hm, Ne.symm hne⟩
    · exact hm

lemma holds_notifyFlags {props : Props} (hm : m ∈ s.messages) :
    (s.notifyFlags id props a).Holds m := by
  have hholds : s.Holds m := ⟨m, hm, rfl, rfl, rfl⟩
  unfold Index.notifyFlags
  split
  · exact Index.holds_updateFlags hholds
  · exact hholds

lemma Inv.holds_modify (h : Inv home b s) (hm : m ∈ s.messages) (v again : Seen)
    (hun : Unmodified m (.modified f id v again)) :
    (s.modifyNotificationMessage f id v again).Holds m := by
  have hholds : s.Holds m := ⟨m, hm, rfl, rfl, rfl⟩
  unfold Index.modifyNotificationMessage
  split
  · exact hholds
  · rename_i props hprops
    split
    · exact holds_notifyFlags hm
    · rename_i hmid
      split
      · exact hholds
      · rename_i m₁ hfound
        obtain ⟨hm₁, hid₁⟩ := Index.mem_of_found hfound
        split
        · exact holds_notifyFlags hm
        · rename_i htime
          split
          · -- the message is deleted, so it is not `m`
            have hne : m.messageId ≠ id := by
              intro hid
              obtain rfl : m₁ = m := List.inj_on_of_nodup_map h.nodup hm₁ hm (hid₁.trans hid.symm)
              rcases hun hid.symm props hprops with hmid' | htime'
              · exact hmid hmid'
              · exact htime htime'
            exact Index.Holds.addNotificationMessage
              ⟨m, Index.mem_delete.mpr ⟨hm, hne⟩, rfl, rfl, rfl⟩ f id again
          · exact hholds

lemma Inv.exactRun (h : Inv home s.uidnext s) (hof : q.Of home) (hroom : Room s q) :
    ExactRun s q :=
  fun hrel hfolder hdone => h.exact_syncContents hof hroom hrel hfolder hdone

lemma Inv.exactRuns {runs : List Sync} (h : Inv home s.uidnext s) (hof : ∀ q ∈ runs, q.Of home)
    (hroom : EachRun Room s runs) : EachRun ExactRun s runs := by
  induction runs generalizing s with
  | nil => trivial
  | cons q rest ih =>
    obtain ⟨hq, hrest⟩ := hroom
    have hofq := hof q (List.mem_cons_self ..)
    refine ⟨h.exactRun hofq hq, fun hrun => ih (h.syncContents hofq hq (.inl hrun))
      (fun q' hq' => hof q' (List.mem_cons_of_mem _ hq')) (hrest hrun)⟩

lemma Inv.keeps (h : Inv home s.uidnext s) (hop : Promised home op) (hwritten : Written s op)
    (hlooks : Looks op) (hm : m ∈ s.messages) (hun : Unmodified m op) : (s.step op).Holds m := by
  have hholds : s.Holds m := ⟨m, hm, rfl, rfl, rfl⟩
  cases op with
  | addFolder f =>
    change (s.addFolder f).Holds m
    unfold Index.addFolder
    split
    · exact hholds
    · exact hholds
  | syncMailbox runs completes =>
    change (s.syncMailbox runs completes).Holds m
    unfold Index.syncMailbox
    split
    · exact h.holds_syncAll hop hwritten hlooks hm hun
    · exact hholds
  | folderCopied q => exact h.holds_syncContents hop hwritten.1 hlooks hm hun
  | created f id v => exact hholds.addNotificationMessage f id v
  | moved oldF oldId f id a v =>
    exact (holds_deleteNotificationMessage hm hun).addNotificationMessage f id v
  | modified f id v again => exact h.holds_modify hm v again hun
  | deleted f id a => exact holds_deleteNotificationMessage hm hun

/-- **In every history whose steps have room in the counters, and in which the runs for copied
folders write back what they numbered, the uids of each folder are given out in ascending order
and never again, the messages that were not modified keep theirs, and the runs that succeed leave
the messages of the store.** -/
theorem sound_of_history {ops : List Op}
    (hrun : Run (fun s op => Promised home op ∧ Written s op) (fun s op t => s.step op = t)
      start ops s) (hop : Promised home op) (hwritten : Written s op) : Sound s op := by
  have h : Inv home s.uidnext s := by
    refine hrun.invariant (I := fun s => Inv home s.uidnext s) ?_ (Inv.start home)
    rintro s op t hs ⟨hpromised, hw⟩ rfl
    exact hs.step hpromised hw
  refine ⟨(h.step hop hwritten).ordered, ?_, fun hlooks m hm hun =>
    h.keeps hop hwritten hlooks hm hun, ?_⟩
  · obtain ⟨new, hgiven, hmem⟩ := s.extends_step op
    have hascends := (h.step hop hwritten).ordered.ascends
    rw [hgiven] at hascends
    intro m hm
    rcases hmem m hm with hold | hnew
    · exact .inl hold
    · exact .inr fun e he hf => (List.pairwise_append.mp hascends).2.2 e he _ hnew hf
  · cases op with
    | syncMailbox runs completes => exact h.exactRuns hop hwritten
    | folderCopied q => exact h.exactRun hop hwritten.1
    | addFolder | created | moved | modified | deleted => trivial

/-- Two messages are indexed, one in a `mail_engine_sync_mailbox` and one by a notification; then
the first one is modified, and gets a new uid. -/
theorem sound_of_history_modified :
    Sound (((start.step (.addFolder 5)).step (.syncMailbox [⟨5,
        [⟨7, some 0, some 1, none, some "a"⟩], ⟨fun _ => true, fun _ => ""⟩⟩] true)).step
        (.created 5 8 ⟨some ⟨some 1, some 1, none, some "b", none⟩, ⟨fun _ => true, fun _ => ""⟩⟩))
      (.modified 5 7 ⟨some ⟨some 1, some 2, none, none, none⟩, ⟨fun _ => true, fun _ => "c"⟩⟩
        ⟨some ⟨some 1, some 2, none, none, none⟩, ⟨fun _ => true, fun _ => "c"⟩⟩) := by
  refine @sound_of_history (fun _ => 5) _ _ [.addFolder 5, .syncMailbox [⟨5,
      [⟨7, some 0, some 1, none, some "a"⟩], ⟨fun _ => true, fun _ => ""⟩⟩] true,
      .created 5 8 ⟨some ⟨some 1, some 1, none, some "b", none⟩, ⟨fun _ => true, fun _ => ""⟩⟩]
    (.cons ⟨trivial, trivial⟩ rfl
    (.cons ⟨by simp [Promised, Sync.Of], ⟨fun n hn => ?_, fun _ => trivial⟩⟩ rfl
    (.cons ⟨rfl, fun n hn => ?_⟩ rfl (.nil _)))) rfl fun n hn => ?_
  · obtain rfl : 0 = n := Option.some.inj hn
    decide
  · have htwo : ((start.step (.addFolder 5)).step (.syncMailbox [⟨5,
        [⟨7, some 0, some 1, none, some "a"⟩], ⟨fun _ => true, fun _ => ""⟩⟩] true)).uidnext 5 =
        some 2 := by decide +kernel
    obtain rfl := Option.some.inj (htwo.symm.trans hn)
    decide
  · have hthree : (((start.step (.addFolder 5)).step (.syncMailbox [⟨5,
        [⟨7, some 0, some 1, none, some "a"⟩], ⟨fun _ => true, fun _ => ""⟩⟩] true)).step
        (.created 5 8 ⟨some ⟨some 1, some 1, none, some "b", none⟩,
          ⟨fun _ => true, fun _ => ""⟩⟩)).uidnext 5 = some 3 := by decide +kernel
    obtain rfl := Option.some.inj (hthree.symm.trans hn)
    decide

/-- A run for a copied folder numbers a message and fails to write `uidnext` back; two messages
later the uid is given out again. -/
theorem not_sound_of_history : ¬ ∀ (home : ℕ → ℕ) (ops : List Op) (op : Op) (s : Index),
    Run (fun _ op => Promised home op) (fun s op t => s.step op = t) start ops s →
      Promised home op → Sound s op := by
  intro h
  have hsound := h (fun _ => 5)
    [.addFolder 5, .folderCopied ⟨5, [⟨7, some 0, some 1, none, some "a"⟩],
      ⟨fun c => c ≠ .writeBack, fun _ => ""⟩⟩,
      .created 5 8 ⟨some ⟨some 0, some 1, none, some "b", none⟩, ⟨fun _ => true, fun _ => ""⟩⟩]
    (.created 5 9 ⟨some ⟨some 0, some 1, none, some "c", none⟩, ⟨fun _ => true, fun _ => ""⟩⟩) _
    (.cons trivial rfl (.cons (by simp [Promised, Sync.Of]) rfl (.cons rfl rfl (.nil _)))) rfl
  have hdistinct := hsound.ordered.distinct
  revert hdistinct
  decide +kernel

end SteepSystem.MailEngine
