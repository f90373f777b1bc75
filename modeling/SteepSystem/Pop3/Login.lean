import SteepSystem.Pop3.Session

/-!
Nothing of a mailbox is shown or changed in a session unless one of its `PASS` commands has been
accepted for the user and the mailbox that the session has then.
-/

namespace SteepSystem.Pop3

open SteepSystem.Lib.CStrings SteepSystem.Lib.Runs
open SteepSystem.Smtp (ltrimString)

def passwordOf (line : Bytes) : Bytes := ltrimString (line.drop 5)

/-- A service has let the user in, with the mailbox that the context has. -/
def Grants (s : SystemServices) (password : Bytes) (c : Pop3Context) : Prop :=
  (∃ before, s.authLogin c.username password before = (.ok (), c.maildir)) ∨
  (c.isCdn = true ∧ ∃ cdn, s.cdn = some cdn ∧ cdn.checkUser c.username = true ∧
    cdn.authUser c.username password = true)

def Output.retrieved : Output → Option Bytes
  | .retrieve path => some path
  | _ => none

structure SameUser (c c' : Pop3Context) : Prop where
  isLogin : c'.isLogin = c.isLogin
  username : c'.username = c.username
  maildir : c'.maildir = c.maildir
  isCdn : c'.isCdn = c.isCdn

variable {p : Params} {s : SystemServices} {line : Bytes} {c c' : Pop3Context} {o : Outcome}

lemma SameUser.grants (h : SameUser c c') {password : Bytes} (hgrants : Grants s password c) :
    Grants s password c' := by
  unfold Grants at hgrants ⊢
  rw [h.username, h.maildir, h.isCdn]
  exact hgrants

/-- What a command does, as far as the login is concerned. -/
structure Guards (p : Params) (s : SystemServices) (line : Bytes) (c : Pop3Context)
    (o : Outcome) : Prop where
  touches : (∃ x ∈ o.outputs, x.touches = true) → c.isLogin = true
  retrieved : ∀ path ∈ o.outputs.filterMap Output.retrieved,
    ∃ fileName ∈ c.names, path = c.filePath p fileName
  stays : c.isLogin = true → o.dispatch ≠ .shouldClose → SameUser c o.context
  enters : c.isLogin = false → o.context.isLogin = true →
    command line = .pass ∧ Grants s (passwordOf line) o.context

lemma retrieved_of_untouched {outputs : List Output} (h : ∀ x ∈ outputs, x.touches = false) :
    outputs.filterMap Output.retrieved = [] := by
  rw [List.filterMap_eq_nil_iff]
  intro x hx
  have := h x hx
  cases x <;> first | rfl | cases this

/-- Nothing is shown, and the user stays the same. -/
lemma guards_untouched (hsame : SameUser c o.context) (h : ∀ x ∈ o.outputs, x.touches = false) :
    Guards p s line c o where
  touches := by
    rintro ⟨x, hx, htouches⟩
    rw [h x hx] at htouches
    cases htouches
  retrieved path hpath := by simp [retrieved_of_untouched h] at hpath
  stays _ _ := hsame
  enters hout hin := absurd (hsame.isLogin ▸ hin) (by simp [hout])

lemma guards_answer (r : Pop3Code) : Guards p s line c (c.answer r) :=
  guards_untouched ⟨rfl, rfl, rfl, rfl⟩ (by simp [Pop3Context.answer, Output.touches])

/-- The user is in, and what is shown of the messages has nothing to do with the files. -/
lemma guards_shown (hlogin : c.isLogin = true) (hsame : SameUser c o.context)
    (h : o.outputs.filterMap Output.retrieved = []) : Guards p s line c o where
  touches _ := hlogin
  retrieved path hpath := by simp [h] at hpath
  stays _ _ := hsame
  enters hout _ := by simp [hlogin] at hout

lemma guards_withMessage {number : ℤ} {handle : ℕ → MsgUnit → Outcome}
    (h : ∀ i unit, c.array[i]? = some unit → Guards p s line c (handle i unit)) :
    Guards p s line c (withMessage c number handle) := by
  unfold withMessage
  split_ifs
  · split
    · rename_i unit hunit
      exact h _ unit hunit
    · exact guards_answer _
  · exact guards_answer _

lemma guards_ofMessage {shortest : ℕ} {handle : Outcome}
    (hhandle : c.isLogin = true → Guards p s line c handle)
    (h : ofMessage line c shortest handle = some o) : Guards p s line c o := by
  unfold ofMessage at h
  dsimp only at h
  split_ifs at h with hlong hshort hblank hlogin <;> cases h
  · exact guards_answer _
  · exact guards_answer _
  · exact guards_answer _
  · exact hhandle (by simpa using hlogin)

lemma guards_retrieve {number : ℤ} (harray : c'.array = c.array) (hsame : SameUser c c')
    (hlogin : c.isLogin = true) : Guards p s line c (retrieve p s c' number) := by
  have hanswer (r : Pop3Code) : Guards p s line c (c'.answer r) :=
    guards_untouched hsame (by simp [Pop3Context.answer, Output.touches])
  unfold retrieve withMessage
  by_cases hpos : 0 < number
  · rw [if_pos hpos]
    split
    · rename_i unit hunit
      split_ifs
      · exact hanswer _
      · exact hanswer _
      · refine ⟨fun _ => hlogin, ?_, fun _ _ => hsame, fun hout => by simp [hlogin] at hout⟩
        intro path hpath
        rw [harray] at hunit
        refine ⟨unit.fileName, List.mem_map_of_mem (List.mem_of_getElem? hunit), ?_⟩
        rw [List.mem_singleton.mp hpath]
        unfold Pop3Context.filePath
        rw [hsame.isCdn, hsame.username, hsame.maildir]
    · exact hanswer _
  · rw [if_neg hpos]
    exact hanswer _

lemma guards_listMessages {text : MsgUnit → Bytes} :
    Guards p s line c (listMessages line c text) := by
  unfold listMessages
  dsimp only
  split_ifs with hall hout hblank hout
  · exact guards_answer _
  · exact guards_shown (by simpa using hout) ⟨rfl, rfl, rfl, rfl⟩ rfl
  · exact guards_answer _
  · exact guards_answer _
  · exact guards_withMessage fun i unit _ =>
      guards_shown (by simpa using hout) ⟨rfl, rfl, rfl, rfl⟩ rfl

/-! ### `PASS` -/

/-- Nobody has been let in before, and nothing is shown. -/
lemma guards_entering (hout : c.isLogin = false) (hcmd : command line = .pass)
    (h : ∀ x ∈ o.outputs, x.touches = false)
    (hgrants : o.context.isLogin = true → Grants s (passwordOf line) o.context) :
    Guards p s line c o where
  touches := by
    rintro ⟨x, hx, htouches⟩
    rw [h x hx] at htouches
    cases htouches
  retrieved path hpath := by simp [retrieved_of_untouched h] at hpath
  stays hin := by simp [hout] at hin
  enters _ hin := ⟨hcmd, hgrants hin⟩

lemma guards_normalLogin {create : Bool} (hout : c.isLogin = false) (hcmd : command line = .pass)
    (hlogin : c'.isLogin = false) :
    Guards p s line c (normalLogin p s (passwordOf line) c' create) := by
  have hcreate : ∀ x ∈ (if s.cdn.isSome ∧ create then [Output.createCdnUser c'.username] else []),
      x.touches = false := by
    split_ifs <;> simp [Output.touches]
  unfold normalLogin
  split
  · dsimp only
    split_ifs
    · exact guards_entering hout hcmd (by simp [Output.touches]) fun hin => by simp [hlogin] at hin
    · exact guards_entering hout hcmd (by simp [Output.touches]) fun hin => by simp [hlogin] at hin
  · rename_i maildir hauth
    dsimp only
    generalize (if s.cdn.isSome ∧ create then [Output.createCdnUser c'.username] else []) = before
      at hcreate
    have hbefore (r : Pop3Code) : ∀ x ∈ before ++ [.reply (.code r)], x.touches = false := by
      intro x hx
      rcases List.mem_append.mp hx with hx | hx
      · exact hcreate x hx
      · rw [List.mem_singleton.mp hx]
        rfl
    split_ifs
    · exact guards_entering hout hcmd (hbefore _) fun hin => by simp [hlogin] at hin
    · split
      · split_ifs
        · exact guards_entering hout hcmd (hbefore _) fun hin => by simp [hlogin] at hin
        · exact guards_entering hout hcmd (hbefore _) fun _ => .inl ⟨c'.maildir, hauth⟩
      all_goals exact guards_entering hout hcmd hcreate fun hin => by simp [hlogin] at hin

lemma guards_pass (hcmd : command line = .pass) : Guards p s line c (cmdPass p s line c) := by
  unfold cmdPass
  split_ifs with hlength hblank hlogin hname
  · exact guards_answer _
  · exact guards_answer _
  · exact guards_answer _
  · exact guards_answer _
  · have hout : c.isLogin = false := by simpa using hlogin
    change Guards p s line c (enter p s c (passwordOf line))
    unfold enter
    split
    · exact guards_normalLogin hout hcmd hout
    · rename_i cdn hcdn
      dsimp only
      split_ifs with hcheck hauth
      · exact guards_normalLogin hout hcmd hout
      · exact guards_normalLogin hout hcmd hout
      · split
        · exact guards_normalLogin hout hcmd hout
        · have hchecked : cdn.checkUser c.username = true := by simpa using hcheck
          have haccepted : cdn.authUser c.username (passwordOf line) = true := by simpa using hauth
          exact guards_entering hout hcmd (by simp [Pop3Context.answer, Output.touches])
            fun _ => .inr ⟨rfl, cdn, hcdn, hchecked, haccepted⟩

/-! ### Each command -/

lemma guards_user : Guards p s line c (cmdUser p s line c) := by
  unfold cmdUser
  dsimp only
  split_ifs with htls hlength hblank hlogin hjudge
  · exact guards_answer _
  · exact guards_answer _
  · exact guards_answer _
  · exact guards_answer _
  all_goals
    have hout : c.isLogin = false := by simpa using hlogin
    refine ⟨?_, ?_, fun hin => absurd hin hlogin, fun _ hin => absurd hin hlogin⟩
  · simp [Output.touches]
  · simp [Output.retrieved]
  · simp [Pop3Context.answer, Output.touches]
  · simp [Pop3Context.answer, Output.retrieved]

lemma guards_closing (hlogin : c.isLogin = true) (hclose : o.dispatch = .shouldClose)
    (h : o.outputs.filterMap Output.retrieved = []) : Guards p s line c o where
  touches _ := hlogin
  retrieved path hpath := by simp [h] at hpath
  stays _ hgo := absurd hclose hgo
  enters hout _ := by simp [hlogin] at hout

lemma retrieved_removeListed (path : Bytes → Bytes) :
    (removeListed c path).filterMap Output.retrieved = [] := by
  simp [removeListed, Output.retrieved]

lemma guards_normalDelete {before : List Output} (hlogin : c.isLogin = true)
    (hbefore : before.filterMap Output.retrieved = []) :
    Guards p s line c (normalDelete s c before) := by
  unfold normalDelete
  dsimp only
  split
  all_goals
    refine guards_closing hlogin rfl ?_
    simp only [farewell, List.filterMap_append, hbefore, retrieved_removeListed]
    rfl

lemma guards_quit : Guards p s line c (cmdQuit p s line c) := by
  unfold cmdQuit
  by_cases hlength : line.length ≠ 4
  · rw [if_pos hlength]
    exact guards_answer _
  · rw [if_neg hlength]
    split_ifs with hlist hcdn hdeleted
    · refine guards_closing hlist.1 rfl ?_
      simp only [farewell, List.filterMap_append, retrieved_removeListed]
      rfl
    · exact guards_normalDelete hlist.1 rfl
    · exact guards_normalDelete hlist.1 rfl
    · exact guards_untouched ⟨rfl, rfl, rfl, rfl⟩ (by simp [farewell, Output.touches])

lemma dispatchCmd_guards (h : dispatchCmd p s line c = some o) : Guards p s line c o := by
  unfold dispatchCmd at h
  cases hcmd : command line <;> rw [hcmd] at h
  case retr =>
    refine guards_ofMessage (fun hlogin => ?_) (show ofMessage line c 5 _ = some o from h)
    exact guards_retrieve rfl ⟨rfl, rfl, rfl, rfl⟩ hlogin
  case top =>
    refine guards_ofMessage (fun hlogin => ?_) (show ofMessage line c 4 _ = some o from h)
    exact guards_retrieve rfl ⟨rfl, rfl, rfl, rfl⟩ hlogin
  case dele =>
    refine guards_ofMessage (fun _ => ?_) (show ofMessage line c 5 _ = some o from h)
    refine guards_withMessage fun i unit _ => ?_
    split_ifs
    · exact guards_answer _
    · exact guards_untouched ⟨rfl, rfl, rfl, rfl⟩ (by simp [Pop3Context.answer, Output.touches])
  all_goals cases h
  case capa => exact guards_untouched ⟨rfl, rfl, rfl, rfl⟩ (by simp [cmdCapa, Output.touches])
  case stls =>
    unfold cmdStls
    split_ifs
    all_goals
      exact guards_untouched ⟨rfl, rfl, rfl, rfl⟩ (by simp [Pop3Context.answer, Output.touches])
  case user => exact guards_user
  case pass => exact guards_pass hcmd
  case stat =>
    unfold cmdStat
    split_ifs with hlength hout
    · exact guards_answer _
    · exact guards_answer _
    · exact guards_shown (by simpa using hout) ⟨rfl, rfl, rfl, rfl⟩ rfl
  case uidl => exact guards_listMessages
  case list => exact guards_listMessages
  case rset =>
    unfold cmdRset
    split_ifs
    all_goals
      exact guards_untouched ⟨rfl, rfl, rfl, rfl⟩ (by simp [Pop3Context.answer, Output.touches])
  case noop =>
    unfold cmdNoop
    split_ifs
    all_goals exact guards_answer _
  case quit => exact guards_quit
  case other => exact guards_answer _

/-! ### Sessions -/

variable {n t u : Connection} {e : Event} {r : Record} {log : Log}

/-- One of the `PASS` commands has been accepted for the user and the mailbox of the context. -/
def Granted (log : Log) (c : Pop3Context) : Prop :=
  ∃ i ∈ log, ∃ bytes s line, i.1 = Event.received bytes s ∧ i.2.line = some line ∧
    command line = .pass ∧ Grants s (passwordOf line) c

lemma granted_step (hgranted : n.context.isLogin = true → Granted log n.context)
    (h : n.step p e = some (t, r)) (hopen : t.phase ≠ .closed)
    (hlogin : t.context.isLogin = true) : Granted (log ++ [(e, r)]) t.context := by
  have hold {c : Pop3Context} (hlogin : n.context.isLogin = true) (hsame : SameUser n.context c) :
      Granted (log ++ [(e, r)]) c := by
    obtain ⟨i, hi, bytes, s, line, hevent, hline, hcmd, hgrants⟩ := hgranted hlogin
    exact ⟨i, List.mem_append_left _ hi, bytes, s, line, hevent, hline, hcmd,
      hsame.grants hgrants⟩
  obtain ⟨bytes, s, line, o, rfl, ho, hcontext, hphase, rfl⟩ |
    ⟨hline, ⟨ssl, isStls, hcontext⟩, -⟩ := step_cases h
  · have hspec := dispatchCmd_guards ho
    rw [hcontext] at hlogin ⊢
    cases hin : n.context.isLogin with
    | true => exact hold hin (hspec.stays hin (go_on (hphase ▸ hopen)))
    | false =>
      obtain ⟨hcmd, hgrants⟩ := hspec.enters hin hlogin
      exact ⟨_, List.mem_append_right _ (List.mem_singleton_self _), bytes, s, line, rfl, rfl,
        hcmd, hgrants⟩
  · rw [hcontext] at hlogin ⊢
    exact hold hlogin ⟨rfl, rfl, rfl, rfl⟩

lemma granted_session {onSslPort : Bool} (h : Session p (.start onSslPort) log t)
    (hopen : t.phase ≠ .closed) (hlogin : t.context.isLogin = true) : Granted log t.context := by
  have hkept := h.simulates
    (R := fun t log => t.phase ≠ .closed → t.context.isLogin = true → Granted log t.context)
    (f := fun log i => log ++ [i])
    (fun n log i t hgranted _ hstep =>
      granted_step (hgranted (open_of_step hstep)) hstep)
    (a := []) (fun _ hlogin => by cases hlogin)
  have hlog (log before : Log) : log.foldl (fun log i => log ++ [i]) before = before ++ log := by
    induction log generalizing before with
    | nil => simp
    | cons i log ih => simp [ih]
  rw [hlog] at hkept
  exact hkept hopen hlogin

/-- Only where a `PASS` has been accepted before is anything of a mailbox shown or changed, and only
a message that was found at the login is read. -/
theorem touches_granted {onSslPort : Bool} (h : Session p (.start onSslPort) log t)
    (hstep : t.step p e = some (u, r)) (htouches : ∃ x ∈ r.outputs, x.touches = true) :
    Granted log t.context ∧ ∀ path ∈ r.outputs.filterMap Output.retrieved,
      ∃ fileName ∈ t.context.names, path = t.context.filePath p fileName := by
  obtain ⟨bytes, s, line, o, rfl, ho, -, -, rfl⟩ | ⟨-, -, huntouched⟩ := step_cases hstep
  · have hspec := dispatchCmd_guards ho
    exact ⟨granted_session h (open_of_step hstep) (hspec.touches htouches), hspec.retrieved⟩
  · obtain ⟨x, hx, htouches⟩ := htouches
    rw [huntouched x hx] at htouches
    cases htouches

theorem touches_granted_once :
    ∃ (t u : Connection) (log : Log) (r : Record),
      Session plainParams (.start false) log t ∧
      t.step plainParams (said "RETR 2\r\n") = some (u, r) ∧
      r.outputs = [.retrieve (bytes "/m/eml/b")] ∧ Granted log t.context ∧
      ∀ path ∈ r.outputs.filterMap Output.retrieved,
        ∃ fileName ∈ t.context.names, path = t.context.filePath plainParams fileName := by
  have hretr : (opened false false []).step plainParams (said "RETR 2\r\n") =
      some ({ opened false false [] with phase := .writing },
        ⟨some (bytes "RETR 2"), [.retrieve (bytes "/m/eml/b")]⟩) := by decide +kernel
  exact ⟨_, _, _, _, session_opened, hretr, rfl,
    touches_granted session_opened hretr ⟨_, List.mem_singleton_self _, rfl⟩⟩

end SteepSystem.Pop3
