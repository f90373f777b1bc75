import SteepSystem.Lib.Runs
import SteepSystem.Pop3.Model

/-!
Whole sessions of the POP3 server: what is deleted at their end.
-/

namespace SteepSystem.Pop3

open SteepSystem.Lib.CStrings SteepSystem.Lib.Runs
open SteepSystem.Smtp (ltrimString)

/-- The marked messages, in the order in which they were marked: `DELE` marks one and `RSET` none,
where they are answered with success. -/
def marked (ms : List ℕ) (r : Record) : List ℕ :=
  match r.line with
  | none => ms
  | some line =>
    if r.outputs = [.reply (.code .code2170000)] then
      match command line with
      | .dele =>
        if (numberOf line).toNat - 1 ∈ ms then ms else ms ++ [(numberOf line).toNat - 1]
      | .rset => []
      | _ => ms
    else ms

/-- The files that a service is asked to delete. -/
def Output.asked : Output → Option (List Bytes)
  | .deleteCdnMail _ fileNames | .deleteMail _ fileNames => some fileNames
  | _ => none

def Output.removed : Output → Option Bytes
  | .remove path => some path
  | _ => none

/-- Whether something of a mailbox is shown by it, or changed. -/
def Output.touches : Output → Bool
  | .reply (.text text) => text ≠ capabilities
  | .reply _ | .addUserIntoTempList _ _ | .createCdnUser _ => false
  | _ => true

lemma asked_of_untouched {outputs : List Output} (h : ∀ x ∈ outputs, x.touches = false) :
    outputs.filterMap Output.asked = [] := by
  rw [List.filterMap_eq_nil_iff]
  intro x hx
  have := h x hx
  cases x <;> first | rfl | cases this

lemma removed_of_untouched {outputs : List Output} (h : ∀ x ∈ outputs, x.touches = false) :
    outputs.filterMap Output.removed = [] := by
  rw [List.filterMap_eq_nil_iff]
  intro x hx
  have := h x hx
  cases x <;> first | rfl | cases this

def Pop3Context.names (c : Pop3Context) : List Bytes := c.array.map (·.fileName)

/-- The list has the messages that are flagged, and nobody has any before the login. -/
structure Tidy (c : Pop3Context) : Prop where
  nodup : c.list.Nodup
  flags : ∀ i, i ∈ c.list ↔ ∃ unit, c.array[i]? = some unit ∧ unit.bDeleted = true
  out : c.isLogin = false → c.list = []

variable {p : Params} {s : SystemServices} {line : Bytes} {c c' : Pop3Context} {o : Outcome}

lemma listed_eq (c : Pop3Context) : c.listed = c.list.filterMap fun i => c.names[i]? := by
  simp [Pop3Context.listed, Pop3Context.names]

/-- Whether the line is a `QUIT` that deletes. -/
def Quits (line : Bytes) (c : Pop3Context) : Prop :=
  command line = .quit ∧ line.length = 4 ∧ c.isLogin = true ∧ c.list ≠ []

/-- What a command does, as far as the messages are concerned. -/
structure Steps (p : Params) (line : Bytes) (c : Pop3Context) (o : Outcome) : Prop where
  tidy : o.dispatch ≠ .shouldClose → Tidy o.context
  list : o.dispatch ≠ .shouldClose → o.context.list = marked c.list ⟨some line, o.outputs⟩
  names : o.dispatch ≠ .shouldClose → c.isLogin = true →
    o.context.isLogin = true ∧ o.context.names = c.names
  asked : ∀ fileNames ∈ o.outputs.filterMap Output.asked, fileNames = c.listed
  quits : o.outputs.filterMap Output.asked ≠ [] ↔ Quits line c
  removed : ∀ path ∈ o.outputs.filterMap Output.removed, Quits line c ∧ ∃ fileName ∈ c.listed,
    path = c.filePath p fileName ∨ path = Pop3Context.path c.maildir (bytes "/eml/") fileName

/-- Nothing about the messages is changed, and nothing is asked for. -/
structure Quiet (c : Pop3Context) (o : Outcome) : Prop where
  array : o.context.array = c.array
  list : o.context.list = c.list
  isLogin : o.context.isLogin = c.isLogin
  asked : o.outputs.filterMap Output.asked = []
  removed : o.outputs.filterMap Output.removed = []

lemma Tidy.congr (h : Tidy c) (harray : c'.array = c.array) (hlist : c'.list = c.list)
    (hlogin : c'.isLogin = c.isLogin) : Tidy c' :=
  ⟨hlist ▸ h.nodup, by simpa only [hlist, harray] using h.flags,
    by simpa only [hlist, hlogin] using h.out⟩

lemma Quiet.steps (h : Quiet c o) (htidy : Tidy c) (hquits : ¬ Quits line c)
    (hmarked : marked c.list ⟨some line, o.outputs⟩ = c.list) : Steps p line c o where
  tidy _ := htidy.congr h.array h.list h.isLogin
  list _ := h.list.trans hmarked.symm
  names _ hlogin := ⟨h.isLogin.trans hlogin, congrArg (List.map MsgUnit.fileName) h.array⟩
  asked fileNames hmem := by simp [h.asked] at hmem
  quits := iff_of_false (by simp [h.asked]) hquits
  removed path hmem := by simp [h.removed] at hmem

lemma quiet_answer (r : Pop3Code) : Quiet c (c.answer r) := ⟨rfl, rfl, rfl, rfl, rfl⟩

lemma quiet_withMessage {number : ℤ} {handle : ℕ → MsgUnit → Outcome}
    (h : ∀ i unit, Quiet c (handle i unit)) : Quiet c (withMessage c number handle) := by
  unfold withMessage
  split_ifs
  · split
    · exact h _ _
    · exact quiet_answer _
  · exact quiet_answer _

lemma quiet_ofMessage {shortest : ℕ} {handle : Outcome} (hhandle : Quiet c handle)
    (h : ofMessage line c shortest handle = some o) : Quiet c o := by
  unfold ofMessage at h
  dsimp only at h
  split_ifs at h <;> cases h
  · exact quiet_answer _
  · exact quiet_answer _
  · exact quiet_answer _
  · exact hhandle

lemma quiet_retrieve {number : ℤ} (harray : c'.array = c.array) (hlist : c'.list = c.list)
    (hlogin : c'.isLogin = c.isLogin) : Quiet c (retrieve p s c' number) := by
  have h : Quiet c' (retrieve p s c' number) := quiet_withMessage fun i unit => by
    split_ifs
    · exact quiet_answer _
    · exact quiet_answer _
    · exact ⟨rfl, rfl, rfl, rfl, rfl⟩
  exact ⟨h.array.trans harray, h.list.trans hlist, h.isLogin.trans hlogin, h.asked, h.removed⟩

lemma quiet_listMessages {text : MsgUnit → Bytes} : Quiet c (listMessages line c text) := by
  unfold listMessages
  dsimp only
  split_ifs
  · exact quiet_answer _
  · exact ⟨rfl, rfl, rfl, rfl, rfl⟩
  · exact quiet_answer _
  · exact quiet_answer _
  · exact quiet_withMessage fun i unit => ⟨rfl, rfl, rfl, rfl, rfl⟩

/-- Other commands mark nothing. -/
lemma marked_other {ms : List ℕ} {outputs : List Output} (hdele : command line ≠ .dele)
    (hrset : command line ≠ .rset) : marked ms ⟨some line, outputs⟩ = ms := by
  unfold marked
  dsimp only
  by_cases hok : outputs = [.reply (.code .code2170000)]
  · rw [if_pos hok]
    split
    · contradiction
    · contradiction
    · rfl
  · rw [if_neg hok]

lemma marked_refused {ms : List ℕ} {outputs : List Output}
    (h : outputs ≠ [.reply (.code .code2170000)]) : marked ms ⟨some line, outputs⟩ = ms := by
  unfold marked
  dsimp only
  rw [if_neg h]

/-! ### `PASS` -/

/-- The messages become others before the login, and none of them is marked. -/
structure Enters (c : Pop3Context) (o : Outcome) : Prop where
  list : o.context.list = c.list
  flags : ∀ unit ∈ o.context.array, unit.bDeleted = false
  asked : o.outputs.filterMap Output.asked = []
  removed : o.outputs.filterMap Output.removed = []

lemma bDeleted_unitsOf {units : List (Bytes × ℕ)} {unit : MsgUnit} (h : unit ∈ unitsOf units) :
    unit.bDeleted = false := by
  obtain ⟨u, -, rfl⟩ := List.mem_map.mp h
  rfl

lemma enters_normalLogin {password : Bytes} {create : Bool}
    (hflags : ∀ unit ∈ c.array, unit.bDeleted = false) :
    Enters c (normalLogin p s password c create) := by
  have hcreate : (if s.cdn.isSome ∧ create then [Output.createCdnUser c.username] else []).filterMap
      Output.asked = [] ∧ (if s.cdn.isSome ∧ create then
        [Output.createCdnUser c.username] else []).filterMap Output.removed = [] := by
    split_ifs <;> exact ⟨rfl, rfl⟩
  unfold normalLogin
  split
  · dsimp only
    split_ifs
    · exact ⟨rfl, hflags, rfl, rfl⟩
    · exact ⟨rfl, hflags, rfl, rfl⟩
  · dsimp only
    generalize (if s.cdn.isSome ∧ create then [Output.createCdnUser c.username] else []) = before
      at hcreate
    obtain ⟨hasked, hremoved⟩ := hcreate
    split_ifs
    · exact ⟨rfl, nofun, by simp [hasked, Output.asked], by simp [hremoved, Output.removed]⟩
    · split
      · split_ifs
        · exact ⟨rfl, fun unit => bDeleted_unitsOf, by simp [hasked, Output.asked],
            by simp [hremoved, Output.removed]⟩
        · exact ⟨rfl, fun unit => bDeleted_unitsOf, by simp [hasked, Output.asked],
            by simp [hremoved, Output.removed]⟩
      all_goals exact ⟨rfl, nofun, hasked, hremoved⟩

lemma enters_enter {password : Bytes} (hflags : ∀ unit ∈ c.array, unit.bDeleted = false) :
    Enters c (enter p s c password) := by
  unfold enter
  split
  · exact enters_normalLogin hflags
  · rename_i cdn
    have hpast {c' : Pop3Context} (create : Bool) (hlist : c'.list = c.list)
        (hflags' : ∀ unit ∈ c'.array, unit.bDeleted = false) :
        Enters c (normalLogin p s password c' create) := by
      have h : Enters c' (normalLogin p s password c' create) := enters_normalLogin hflags'
      exact ⟨h.list.trans hlist, h.flags, h.asked, h.removed⟩
    dsimp only
    split_ifs
    · exact hpast _ rfl hflags
    · exact hpast _ rfl hflags
    · split
      · exact hpast _ rfl nofun
      · refine ⟨rfl, fun unit hmem => ?_, rfl, rfl⟩
        rcases List.mem_append.mp hmem with h | h
        · exact hflags unit h
        · exact bDeleted_unitsOf h

lemma steps_pass (htidy : Tidy c) (hcmd : command line = .pass) :
    Steps p line c (cmdPass p s line c) := by
  have hquits : ¬ Quits line c := fun h => by cases hcmd.symm.trans h.1
  have hmarked (outputs : List Output) : marked c.list ⟨some line, outputs⟩ = c.list :=
    marked_other (by simp [hcmd]) (by simp [hcmd])
  have hanswer (r : Pop3Code) : Steps p line c (c.answer r) :=
    (quiet_answer r).steps htidy hquits (hmarked _)
  unfold cmdPass
  split_ifs with hlength hblank hlogin hname
  · exact hanswer _
  · exact hanswer _
  · exact hanswer _
  · exact hanswer _
  · have hlist : c.list = [] := htidy.out (by simpa using hlogin)
    have hflags : ∀ unit ∈ c.array, unit.bDeleted = false := by
      intro unit hmem
      obtain ⟨i, hi⟩ := List.mem_iff_getElem?.mp hmem
      by_contra hdeleted
      have := (htidy.flags i).mpr ⟨unit, hi, by simpa using hdeleted⟩
      simp [hlist] at this
    have h : Enters c (enter p s c (ltrimString (line.drop 5))) := enters_enter hflags
    refine ⟨fun _ => ⟨?_, fun i => ?_, fun _ => h.list.trans hlist⟩,
      fun _ => h.list.trans (hmarked _).symm, fun _ h => absurd h hlogin, ?_,
      iff_of_false (by simp [h.asked]) hquits, ?_⟩
    · rw [h.list]
      exact htidy.nodup
    · rw [h.list, hlist]
      refine iff_of_false (by simp) ?_
      rintro ⟨unit, hunit, hdeleted⟩
      rw [h.flags unit (List.mem_of_getElem? hunit)] at hdeleted
      cases hdeleted
    · simp [h.asked]
    · simp [h.removed]

/-! ### `DELE` and `RSET` -/

lemma names_set {i : ℕ} {unit : MsgUnit} (h : c.array[i]? = some unit) (bDeleted : Bool) :
    (c.array.set i { unit with bDeleted }).map MsgUnit.fileName =
      c.array.map MsgUnit.fileName := by
  obtain ⟨hlt, rfl⟩ := List.getElem?_eq_some_iff.mp h
  rw [List.map_set]
  refine List.ext_getElem? fun j => ?_
  by_cases hj : i = j
  · subst hj
    simp [hlt]
  · rw [List.getElem?_set_ne hj]

lemma steps_dele (htidy : Tidy c) (hcmd : command line = .dele)
    (h : cmdDele line c = some o) : Steps p line c o := by
  have hquits : ¬ Quits line c := fun h => by cases hcmd.symm.trans h.1
  have hrefused (r : Pop3Code) (hr : r ≠ .code2170000) : Steps p line c (c.answer r) :=
    (quiet_answer r).steps htidy hquits (marked_refused (by simpa [Pop3Context.answer] using hr))
  unfold cmdDele ofMessage at h
  dsimp only at h
  split_ifs at h with hlong hshort hblank hlogin <;> cases h
  · exact hrefused _ (by decide)
  · exact hrefused _ (by decide)
  · exact hrefused _ (by decide)
  · unfold withMessage
    split_ifs with hpos
    · split
      · rename_i unit hunit
        have hmarked : marked c.list ⟨some line, [.reply (.code .code2170000)]⟩ =
            if (numberOf line).toNat - 1 ∈ c.list then c.list
            else c.list ++ [(numberOf line).toNat - 1] := by
          simp [marked, hcmd]
        dsimp only
        split_ifs with hdeleted
        · refine (quiet_answer _).steps htidy hquits (hmarked.trans (if_pos ?_))
          exact (htidy.flags _).mpr ⟨unit, hunit, hdeleted⟩
        · have hnew : (numberOf line).toNat - 1 ∉ c.list := by
            intro hmem
            obtain ⟨unit', hunit', hdeleted'⟩ := (htidy.flags _).mp hmem
            rw [hunit] at hunit'
            cases hunit'
            exact hdeleted hdeleted'
          generalize (numberOf line).toNat - 1 = i at hunit hmarked hnew
          have hlt : i < c.array.length := (List.getElem?_eq_some_iff.mp hunit).1
          rw [if_neg hnew] at hmarked
          refine ⟨fun _ => ⟨?_, fun j => ?_, fun hout => ?_⟩, fun _ => hmarked.symm,
            fun _ hlogin => ⟨hlogin, ?_⟩, nofun, iff_of_false (by simp [Output.asked,
              Pop3Context.answer]) hquits, nofun⟩
          · exact List.nodup_append.mpr ⟨htidy.nodup, List.nodup_singleton i, by
              rintro j hj k hk rfl
              exact hnew (List.mem_singleton.mp hk ▸ hj)⟩
          · change j ∈ c.list ++ [i] ↔ ∃ unit', (c.array.set i { unit with bDeleted := true })[j]? =
              some unit' ∧ unit'.bDeleted = true
            by_cases hj : i = j
            · subst hj
              simp [hlt]
            · rw [List.getElem?_set_ne hj, ← htidy.flags j]
              simp [Ne.symm hj]
          · exact absurd hout hlogin
          · exact names_set hunit true
      · exact hrefused _ (by decide)
    · exact hrefused _ (by decide)

lemma getElem?_restore (array : List MsgUnit) (list : List ℕ) (i : ℕ) :
    (restore array list)[i]? = array[i]?.map fun unit =>
      if i ∈ list then { unit with bDeleted := false } else unit := by
  induction list generalizing array with
  | nil => simp [restore]
  | cons j list ih =>
    have h := ih (array.modify j fun unit => { unit with bDeleted := false })
    rw [List.getElem?_modify] at h
    simp only [Option.map_eq_map, Option.map_map] at h
    refine h.trans (congrArg (fun f => Option.map f array[i]?) (funext fun unit => ?_))
    by_cases hj : j = i
    · simp [hj]
    · simp [hj, Ne.symm hj]

lemma names_restore (array : List MsgUnit) (list : List ℕ) :
    (restore array list).map MsgUnit.fileName = array.map MsgUnit.fileName := by
  refine List.ext_getElem? fun i => ?_
  rw [List.getElem?_map, List.getElem?_map, getElem?_restore, Option.map_map]
  refine congrArg (fun f => Option.map f array[i]?) (funext fun unit => ?_)
  by_cases h : i ∈ list <;> simp [h]

lemma steps_rset (htidy : Tidy c) (hcmd : command line = .rset) :
    Steps p line c (cmdRset line c) := by
  have hquits : ¬ Quits line c := fun h => by cases hcmd.symm.trans h.1
  have hmarked (ms : List ℕ) : marked ms ⟨some line, [.reply (.code .code2170000)]⟩ = [] := by
    simp [marked, hcmd]
  unfold cmdRset
  split_ifs with hlength hlogin
  · exact (quiet_answer _).steps htidy hquits (marked_refused (by simp [Pop3Context.answer]))
  · refine ⟨fun _ => ⟨List.nodup_nil, fun i => iff_of_false (by simp [Pop3Context.answer]) ?_,
      fun _ => rfl⟩, fun _ => (hmarked _).symm, fun _ _ => ⟨hlogin, names_restore _ _⟩, nofun,
      iff_of_false (by simp [Output.asked, Pop3Context.answer]) hquits, nofun⟩
    rintro ⟨unit, hunit, hdeleted⟩
    have hrestored := (getElem?_restore c.array c.list i).symm.trans hunit
    obtain ⟨old, hold, rfl⟩ := Option.map_eq_some_iff.mp hrestored
    split_ifs at hdeleted with hmem
    exact hmem ((htidy.flags i).mpr ⟨old, hold, hdeleted⟩)
  · exact (quiet_answer _).steps htidy hquits ((hmarked _).trans
      (htidy.out (by simpa using hlogin)).symm)

/-! ### `QUIT` -/

lemma asked_removeListed (path : Bytes → Bytes) :
    (removeListed c path).filterMap Output.asked = [] := by
  simp [removeListed, Output.asked]

lemma removed_removeListed (path : Bytes → Bytes) :
    (removeListed c path).filterMap Output.removed = c.listed.map path := by
  unfold removeListed
  rw [List.filterMap_cons_none (by rfl), List.filterMap_map]
  exact List.filterMap_eq_map (f := path) ▸ rfl

/-- The services are asked for what is listed, and nothing else is removed. -/
structure Closing (p : Params) (c : Pop3Context) (o : Outcome) : Prop where
  closes : o.dispatch = .shouldClose
  nonempty : o.outputs.filterMap Output.asked ≠ []
  asked : ∀ fileNames ∈ o.outputs.filterMap Output.asked, fileNames = c.listed
  removed : ∀ path ∈ o.outputs.filterMap Output.removed, ∃ fileName ∈ c.listed,
    path = c.filePath p fileName ∨ path = Pop3Context.path c.maildir (bytes "/eml/") fileName

/-- What is asked before the last reply, and what is removed. -/
lemma closing_of {outputs before : List Output} {context : Pop3Context} {last : Reply}
    {files : List Bytes} (hbefore : before.filterMap Output.asked ≠ [])
    (hasked : ∀ fileNames ∈ before.filterMap Output.asked, fileNames = c.listed)
    (hremoved : before.filterMap Output.removed = [])
    (houtputs : outputs.filterMap Output.asked = [])
    (hfiles : outputs.filterMap Output.removed = files)
    (hpath : ∀ path ∈ files, ∃ fileName ∈ c.listed,
      path = c.filePath p fileName ∨ path = Pop3Context.path c.maildir (bytes "/eml/") fileName) :
    Closing p c ⟨context, before ++ outputs ++ [.reply last], .shouldClose⟩ := by
  have hlast : [Output.reply last].filterMap Output.asked = [] ∧
      [Output.reply last].filterMap Output.removed = [] := ⟨rfl, rfl⟩
  refine ⟨rfl, ?_, ?_, ?_⟩
  · simpa only [List.filterMap_append, houtputs, hlast.1, List.append_nil] using hbefore
  · simpa only [List.filterMap_append, houtputs, hlast.1, List.append_nil] using hasked
  · simpa only [List.filterMap_append, hremoved, hfiles, hlast.2, List.append_nil,
      List.nil_append] using hpath

lemma closing_removeListed {before : List Output} {context : Pop3Context} {last : Reply}
    {path : Bytes → Bytes} (hbefore : before.filterMap Output.asked ≠ [])
    (hasked : ∀ fileNames ∈ before.filterMap Output.asked, fileNames = c.listed)
    (hremoved : before.filterMap Output.removed = [])
    (hpath : ∀ fileName, path fileName = c.filePath p fileName ∨
      path fileName = Pop3Context.path c.maildir (bytes "/eml/") fileName) :
    Closing p c ⟨context, before ++ removeListed c path ++ [.reply last], .shouldClose⟩ := by
  refine closing_of hbefore hasked hremoved (asked_removeListed path) (removed_removeListed path) ?_
  intro file hfile
  obtain ⟨fileName, hmem, rfl⟩ := List.mem_map.mp hfile
  exact ⟨fileName, hmem, hpath fileName⟩

lemma closing_normalDelete {before : List Output}
    (hbefore : ∀ fileNames ∈ before.filterMap Output.asked, fileNames = c.listed)
    (hremoved : before.filterMap Output.removed = []) :
    Closing p c (normalDelete s c before) := by
  have hnonempty :
      (before ++ [Output.deleteMail c.maildir c.listed]).filterMap Output.asked ≠ [] := by
    simp [List.filterMap_append, Output.asked]
  have hasked : ∀ fileNames ∈ (before ++ [Output.deleteMail c.maildir c.listed]).filterMap
      Output.asked, fileNames = c.listed := by
    intro fileNames h
    rw [List.filterMap_append] at h
    rcases List.mem_append.mp h with h | h
    · exact hbefore fileNames h
    · exact List.mem_singleton.mp h
  have hnone :
      (before ++ [Output.deleteMail c.maildir c.listed]).filterMap Output.removed = [] := by
    simp [List.filterMap_append, hremoved, Output.removed]
  have hfailed (last : Reply) : Closing p c
      ⟨c, before ++ [Output.deleteMail c.maildir c.listed] ++ [.reply last], .shouldClose⟩ := by
    have h : Closing p c ⟨c, before ++ [Output.deleteMail c.maildir c.listed] ++ [] ++
        [.reply last], .shouldClose⟩ := closing_of hnonempty hasked hnone rfl rfl nofun
    rwa [List.append_nil] at h
  unfold normalDelete
  split
  · exact closing_removeListed hnonempty hasked hnone fun fileName => .inr rfl
  · exact hfailed _
  · exact hfailed _
  · exact hfailed _

lemma Closing.steps (h : Closing p c o) (hquits : Quits line c) : Steps p line c o where
  tidy hgo := absurd h.closes hgo
  list hgo := absurd h.closes hgo
  names hgo := absurd h.closes hgo
  asked := h.asked
  quits := iff_of_true h.nonempty hquits
  removed path hmem := ⟨hquits, h.removed path hmem⟩

lemma steps_quit (htidy : Tidy c) (hcmd : command line = .quit) :
    Steps p line c (cmdQuit p s line c) := by
  have hmarked (outputs : List Output) : marked c.list ⟨some line, outputs⟩ = c.list :=
    marked_other (by simp [hcmd]) (by simp [hcmd])
  unfold cmdQuit
  by_cases hlength : line.length = 4
  · rw [if_neg (by simpa using hlength)]
    by_cases hlist : c.isLogin ∧ c.list ≠ []
    · have hquits : Quits line c := ⟨hcmd, hlength, hlist⟩
      rw [if_pos hlist]
      split_ifs with hcdn hdeleted
      · exact (closing_removeListed (by simp [Output.asked]) (by simp [Output.asked]) rfl
          fun fileName => .inl rfl).steps hquits
      · exact (closing_normalDelete (by simp [Output.asked]) rfl).steps hquits
      · exact (closing_normalDelete (by simp) rfl).steps hquits
    · rw [if_neg hlist]
      have hquits : ¬ Quits line c := fun h => hlist h.2.2
      exact ⟨fun hgo => absurd rfl hgo, fun hgo => absurd rfl hgo, fun hgo => absurd rfl hgo,
        nofun, iff_of_false (by simp [farewell, Output.asked]) hquits, nofun⟩
  · rw [if_pos hlength]
    exact (quiet_answer _).steps htidy (fun h => hlength h.2.1) (hmarked _)

/-! ### Each command -/

lemma quiet_stls : Quiet c (cmdStls p c) := by
  unfold cmdStls
  split_ifs
  · exact quiet_answer _
  · exact quiet_answer _
  · exact quiet_answer _
  · exact ⟨rfl, rfl, rfl, rfl, rfl⟩

lemma quiet_user : Quiet c (cmdUser p s line c) := by
  unfold cmdUser
  dsimp only
  split_ifs
  all_goals exact ⟨rfl, rfl, rfl, rfl, rfl⟩

lemma quiet_stat : Quiet c (cmdStat line c) := by
  unfold cmdStat
  split_ifs
  all_goals exact ⟨rfl, rfl, rfl, rfl, rfl⟩

lemma quiet_noop : Quiet c (cmdNoop line c) := by
  unfold cmdNoop
  split_ifs
  all_goals exact quiet_answer _

/-- The command changes nothing about the messages. -/
def Command.Idle : Command → Prop
  | .pass | .rset | .dele | .quit => False
  | _ => True

lemma quiet_dispatchCmd (hidle : (command line).Idle) (h : dispatchCmd p s line c = some o) :
    Quiet c o := by
  unfold dispatchCmd at h
  cases hcmd : command line <;> rw [hcmd] at h hidle
  case pass | rset | dele | quit => exact hidle.elim
  case retr =>
    refine quiet_ofMessage ?_ (show ofMessage line c 5 _ = some o from h)
    exact quiet_retrieve rfl rfl rfl
  case top =>
    refine quiet_ofMessage ?_ (show ofMessage line c 4 _ = some o from h)
    exact quiet_retrieve rfl rfl rfl
  all_goals cases h
  case capa => exact ⟨rfl, rfl, rfl, rfl, rfl⟩
  case stls => exact quiet_stls
  case user => exact quiet_user
  case stat => exact quiet_stat
  case uidl => exact quiet_listMessages
  case list => exact quiet_listMessages
  case noop => exact quiet_noop
  case other => exact quiet_answer _

lemma dispatchCmd_spec (htidy : Tidy c) (h : dispatchCmd p s line c = some o) :
    Steps p line c o := by
  by_cases hidle : (command line).Idle
  · have hne {k : Command} (hk : ¬ k.Idle) : command line ≠ k := fun hcmd => hk (hcmd ▸ hidle)
    exact (quiet_dispatchCmd hidle h).steps htidy (fun h => hne id h.1)
      (marked_other (hne id) (hne id))
  · unfold dispatchCmd at h
    cases hcmd : command line <;> rw [hcmd] at h hidle
    case pass => exact Option.some.inj h ▸ steps_pass htidy hcmd
    case rset => exact Option.some.inj h ▸ steps_rset htidy hcmd
    case dele => exact steps_dele htidy hcmd h
    case quit => exact Option.some.inj h ▸ steps_quit htidy hcmd
    all_goals exact absurd trivial hidle

/-! ### Sessions -/

abbrev Log := List (Event × Record)

/-- The events of a log lead from one connection to another, with these records. -/
abbrev Session (p : Params) (n : Connection) (log : Log) (t : Connection) : Prop :=
  Run (fun _ _ => True) (fun n (i : Event × Record) t => n.step p i.1 = some (t, i.2)) n log t

/-- The messages that are marked after a session. -/
def marks (log : Log) : List ℕ := log.foldl (fun ms i => marked ms i.2) []

variable {n t u m : Connection} {e : Event} {r : Record} {log : Log} {ms : List ℕ}

lemma open_of_step (h : n.step p e = some (t, r)) : n.phase ≠ .closed := by
  intro hclosed
  unfold Connection.step at h
  cases e <;> simp [hclosed] at h

/-- Each step executes a line, or leaves the messages alone. -/
lemma step_cases (h : n.step p e = some (t, r)) :
    (∃ bytes s line o, e = .received bytes s ∧ dispatchCmd p s line n.context = some o ∧
      t.context = o.context ∧ t.phase = Connection.after o.dispatch ∧
      r = ⟨some line, o.outputs⟩) ∨
    (r.line = none ∧ (∃ ssl isStls, t.context = { n.context with ssl, isStls }) ∧
      ∀ x ∈ r.outputs, x.touches = false) := by
  unfold Connection.step at h
  cases e with
  | handshake ok s =>
    dsimp only at h
    split_ifs at h <;> cases h
    · exact .inr ⟨rfl, ⟨_, _, rfl⟩, by simp [Output.touches]⟩
    · exact .inr ⟨rfl, ⟨_, _, rfl⟩, nofun⟩
    · exact .inr ⟨rfl, ⟨_, _, rfl⟩, nofun⟩
  | written =>
    dsimp only at h
    split_ifs at h
    cases h
    exact .inr ⟨rfl, ⟨_, _, rfl⟩, nofun⟩
  | lost =>
    dsimp only at h
    split_ifs at h
    cases h
    exact .inr ⟨rfl, ⟨_, _, rfl⟩, nofun⟩
  | received bytes s =>
    dsimp only at h
    split_ifs at h
    unfold Connection.receive at h
    dsimp only at h
    split at h
    · rename_i line rest _
      obtain ⟨o, ho, heq⟩ := Option.map_eq_some_iff.mp h
      cases heq
      exact .inl ⟨_, s, _, o, rfl, ho, rfl, rfl, rfl⟩
    · split_ifs at h <;> cases h
      · exact .inr ⟨rfl, ⟨_, _, rfl⟩, by simp [Output.touches]⟩
      · exact .inr ⟨rfl, ⟨_, _, rfl⟩, nofun⟩

/-- As long as the connection is open, the list has the marked messages. -/
def Keeps (n : Connection) (ms : List ℕ) : Prop :=
  n.phase ≠ .closed → Tidy n.context ∧ n.context.list = ms

lemma go_on {d : Dispatch} (h : Connection.after d ≠ .closed) : d ≠ .shouldClose := by
  rintro rfl
  exact h rfl

lemma keeps_step (hkeeps : Keeps n ms) (h : n.step p e = some (t, r)) : Keeps t (marked ms r) := by
  obtain ⟨htidy, rfl⟩ := hkeeps (open_of_step h)
  intro hopen
  obtain ⟨-, s, line, o, -, ho, hcontext, hphase, rfl⟩ | ⟨hline, ⟨ssl, isStls, hcontext⟩, -⟩ :=
    step_cases h
  · have hgo := go_on (hphase ▸ hopen)
    have hspec := dispatchCmd_spec htidy ho
    rw [hcontext]
    exact ⟨hspec.tidy hgo, hspec.list hgo⟩
  · rw [hcontext]
    refine ⟨htidy.congr rfl rfl rfl, ?_⟩
    unfold marked
    rw [hline]

lemma keeps_start (onSslPort : Bool) : Keeps (.start onSslPort) [] := fun _ =>
  ⟨⟨List.nodup_nil, by simp [Connection.start], fun _ => rfl⟩, rfl⟩

lemma keeps_session {onSslPort : Bool} (h : Session p (.start onSslPort) log t) :
    Keeps t (marks log) :=
  h.simulates (fun _ _ (i : Event × Record) _ hkeeps _ hstep => keeps_step (r := i.2) hkeeps hstep)
    (keeps_start onSslPort)

/-- The messages stay the same behind the login. -/
lemma names_step (htidy : Tidy n.context) (hlogin : n.context.isLogin = true)
    (h : n.step p e = some (t, r)) (hopen : t.phase ≠ .closed) :
    t.context.isLogin = true ∧ t.context.names = n.context.names := by
  obtain ⟨-, s, line, o, -, ho, hcontext, hphase, rfl⟩ | ⟨hline, ⟨ssl, isStls, hcontext⟩, -⟩ :=
    step_cases h
  · rw [hcontext]
    exact (dispatchCmd_spec htidy ho).names (go_on (hphase ▸ hopen)) hlogin
  · rw [hcontext]
    exact ⟨hlogin, rfl⟩

lemma names_session (h : Session p m log t) (hkeeps : Keeps m ms)
    (hlogin : m.context.isLogin = true) (hopen : t.phase ≠ .closed) :
    t.context.isLogin = true ∧ t.context.names = m.context.names := by
  have hinv := h.invariant (I := fun t => (t.phase ≠ .closed → Tidy t.context) ∧
      (t.phase ≠ .closed → t.context.isLogin = true ∧ t.context.names = m.context.names))
    (fun s i t hI _ hstep => by
      have htidy := hI.1 (open_of_step hstep)
      obtain ⟨hlogin, hnames⟩ := hI.2 (open_of_step hstep)
      refine ⟨fun hopen => (keeps_step (fun _ => ⟨htidy, rfl⟩) hstep hopen).1, fun hopen => ?_⟩
      have := names_step htidy hlogin hstep hopen
      exact ⟨this.1, this.2.trans hnames⟩)
    ⟨fun hopen => (hkeeps hopen).1, fun _ => ⟨hlogin, rfl⟩⟩
  exact hinv.2 hopen

/-- The files of the marked messages, by the names that were found at the login. -/
def markedFiles (c : Pop3Context) (ms : List ℕ) : List Bytes := ms.filterMap fun i => c.names[i]?

/-- What is asked of the services and removed is what has been marked since the login, whatever has
come in between; and it is asked for by a `QUIT` alone. -/
theorem deletes_marked {onSslPort : Bool} {before after : Log}
    (hbefore : Session p (.start onSslPort) before m) (hlogin : m.context.isLogin = true)
    (hafter : Session p m after t) (h : t.step p e = some (u, r)) :
    (∀ fileNames ∈ r.outputs.filterMap Output.asked,
      fileNames = markedFiles m.context (marks (before ++ after))) ∧
    (r.outputs.filterMap Output.asked ≠ [] ↔
      (∃ line, r.line = some line ∧ command line = .quit ∧ line.length = 4) ∧
        marks (before ++ after) ≠ []) ∧
    ∀ path ∈ r.outputs.filterMap Output.removed,
      r.outputs.filterMap Output.asked ≠ [] ∧
      ∃ fileName ∈ markedFiles m.context (marks (before ++ after)),
        path = t.context.filePath p fileName ∨
          path = Pop3Context.path t.context.maildir (bytes "/eml/") fileName := by
  have hopen := open_of_step h
  obtain ⟨htidy, hlist⟩ := keeps_session (hbefore.append hafter) hopen
  obtain ⟨hlogged, hnames⟩ := names_session hafter (keeps_session hbefore) hlogin hopen
  have hfiles : t.context.listed = markedFiles m.context (marks (before ++ after)) := by
    rw [listed_eq, hnames, hlist]
    rfl
  obtain ⟨-, s, line, o, -, ho, -, -, rfl⟩ | ⟨hline, -, huntouched⟩ := step_cases h
  · have hspec := dispatchCmd_spec htidy ho
    rw [← hfiles]
    refine ⟨hspec.asked, hspec.quits.trans ⟨fun hq => ⟨⟨line, rfl, hq.1, hq.2.1⟩, ?_⟩, ?_⟩,
      fun path hpath => ?_⟩
    · exact hlist ▸ hq.2.2.2
    · rintro ⟨⟨_, ⟨⟩, hcmd, hlength⟩, hmarks⟩
      exact ⟨hcmd, hlength, hlogged, hlist ▸ hmarks⟩
    · obtain ⟨hq, hfile⟩ := hspec.removed path hpath
      exact ⟨hspec.quits.mpr hq, hfile⟩
  · have hasked := asked_of_untouched huntouched
    refine ⟨by simp [hasked], iff_of_false (by simp [hasked]) ?_,
      by simp [removed_of_untouched huntouched]⟩
    rintro ⟨⟨line, hsome, -⟩, -⟩
    rw [hline] at hsome
    cases hsome

/-! ### A session of two messages -/

def plainParams : Params := ⟨3, 60, false, false, []⟩

/-- A mailbox with two messages, behind every password. -/
def openServices : SystemServices where
  judgeUser _ := true
  cdn := none
  authLogin _ _ _ := (.ok (), bytes "/m")
  listMail := .ok [(bytes "a", 3), (bytes "b", 5)] 2 8
  deleteMail := .ok
  deleteCdnMail := true
  opens := true
  retrieves := true
  hostId := bytes "host"

def said (text : String) : Event := .received (bytes text) openServices

/-- The line has been answered with success. -/
def accepted (line : String) : Record := ⟨some (bytes line), [.reply (.code .code2170000)]⟩

def named : Connection :=
  { Connection.start false with context := { (Connection.start false).context with
    username := bytes "u" } }

/-- The mailbox is open, and some of its messages are marked. -/
def opened (deleted deleted' : Bool) (list : List ℕ) : Connection :=
  { named with context := { named.context with
    isLogin := true
    maildir := bytes "/m"
    array := [⟨bytes "a", 3, deleted⟩, ⟨bytes "b", 5, deleted'⟩]
    list
    totalMail := 2
    totalSize := 8 } }

lemma session_opened : Session plainParams (.start false)
    [(said "USER u\r\n", accepted "USER u"), (said "PASS p\r\n", accepted "PASS p")]
    (opened false false []) := by
  have huser : (Connection.start false).step plainParams (said "USER u\r\n") =
    some (named, accepted "USER u") := by decide +kernel
  have hpass : named.step plainParams (said "PASS p\r\n") =
    some (opened false false [], accepted "PASS p") := by decide +kernel
  exact .cons trivial huser (.cons trivial hpass (.nil _))

theorem deletes_marked_two :
    ∃ (t u : Connection) (log : Log) (r : Record),
      Session plainParams (.start false) log t ∧
      t.step plainParams (said "QUIT\r\n") = some (u, r) ∧ r.outputs.filterMap Output.asked ≠ [] ∧
      ∀ fileNames ∈ r.outputs.filterMap Output.asked, fileNames = [bytes "b", bytes "a"] := by
  have hsecond : (opened false false []).step plainParams (said "DELE 2\r\n") =
    some (opened false true [1], accepted "DELE 2") := by decide +kernel
  have hfirst : (opened false true [1]).step plainParams (said "DELE 1\r\n") =
    some (opened true true [1, 0], accepted "DELE 1") := by decide +kernel
  have hafter : Session plainParams (opened false false [])
      [(said "DELE 2\r\n", accepted "DELE 2"), (said "DELE 1\r\n", accepted "DELE 1")]
      (opened true true [1, 0]) := .cons trivial hsecond (.cons trivial hfirst (.nil _))
  obtain ⟨⟨u, r⟩, hquit⟩ := Option.isSome_iff_exists.mp (by decide +kernel :
    ((opened true true [1, 0]).step plainParams (said "QUIT\r\n")).isSome = true)
  have hasked : r.outputs.filterMap Output.asked ≠ [] := by
    have : ((opened true true [1, 0]).step plainParams (said "QUIT\r\n")).any
      (fun o => o.2.outputs.filterMap Output.asked ≠ []) = true := by decide +kernel
    simpa [hquit] using this
  have hfiles : markedFiles (opened false false []).context (marks ([(said "USER u\r\n",
      accepted "USER u"), (said "PASS p\r\n", accepted "PASS p")] ++ [(said "DELE 2\r\n",
      accepted "DELE 2"), (said "DELE 1\r\n", accepted "DELE 1")])) = [bytes "b", bytes "a"] := by
    decide +kernel
  exact ⟨_, u, _, r, session_opened.append hafter, hquit, hasked,
    hfiles ▸ (deletes_marked session_opened rfl hafter hquit).1⟩

end SteepSystem.Pop3
