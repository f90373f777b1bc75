import SteepSystem.Smtp.Run

/-!
Everything a step that keeps the connection open can make of the context, each with what it
requires.
-/

namespace SteepSystem.Smtp

open SteepSystem.Lib.CStrings SteepSystem.Lib.Runs

variable (p : Params) (s : SystemServices) (cmdLine : List UInt8) (c : SmtpContext)

/-- Where the line can get to the `auth` service. -/
def SmtpContext.AuthOpen : Prop :=
  c.mustStarttls p = false ∧ p.runningMode ≠ .inbound ∨ c.lastCmd = .authProcess

/-- What a line makes of the context. -/
inductive LineMove : SmtpContext → Prop
  | stay : LineMove c
  | reset (cmd : LastCmd) : cmd ∈ [LastCmd.helo, .ehlo, .starttls, .rset] →
      LineMove { c.resetEnvelop with lastCmd := cmd }
  | authFailed : c.AuthOpen p → c.failAuth.envelop.authTimes < p.maxAuthTimes →
      LineMove { c.failAuth with lastCmd := .none }
  | authContinued : c.AuthOpen p → LineMove { c with lastCmd := .authProcess }
  | loggedIn : c.AuthOpen p →
      LineMove { c with lastCmd := .logged, envelop := { c.envelop with isLogin := true } }
  | sender (isOutbound : Bool) : c.mustStarttls p = false →
      (p.runningMode = .inbound → c.mayBegin = true) →
      LineMove (takeSender cmdLine c isOutbound).context
  | recipient : c.mustStarttls p = false → c.Within → LineMove (takeRecipient cmdLine c).context
  | data : c.mustStarttls p = false → c.lastCmd = .rcpt → c.sessionNum ≠ p.maxMailSessions →
      LineMove { c with lastCmd := .data }

variable {p s cmdLine c}

lemma authServiceInteract_moves (hopen : c.AuthOpen p)
    (hgo : (authServiceInteract p s cmdLine c).dispatch ≠ .shouldClose) :
    LineMove p cmdLine c (authServiceInteract p s cmdLine c).context := by
  unfold authServiceInteract at hgo ⊢
  cases hauth : s.authProcess cmdLine with
  | error =>
    simp only [hauth] at hgo ⊢
    split_ifs at hgo ⊢ with hdenied hmany
    · exact .stay
    · exact absurd rfl hgo
    · exact .authFailed hopen (not_le.mp hmany)
  | «continue» =>
    simp only
    exact .authContinued hopen
  | finish =>
    simp only
    split_ifs
    · exact .stay
    · exact .loggedIn hopen

lemma cmdMail_moves : LineMove p cmdLine c (cmdMail p s cmdLine c).context := by
  have houtside (htls : c.mustStarttls p = false) :
      LineMove p cmdLine c (takeOutsideSender cmdLine c).context := by
    unfold takeOutsideSender
    split_ifs with hbegin
    · exact .sender false htls fun _ => hbegin
    · exact .stay
  have hlocal (htls : c.mustStarttls p = false) (hmode : p.runningMode ≠ .inbound) :
      LineMove p cmdLine c (takeLocalSender p cmdLine c).context := by
    have hsender : LineMove p cmdLine c (takeSender cmdLine c true).context :=
      .sender true htls fun h => absurd h hmode
    unfold takeLocalSender
    split_ifs
    · exact hsender
    · exact .stay
    · exact hsender
  unfold cmdMail
  by_cases hsyntax : cmdLine.length ≤ 10 ∨
      casePrefix (bytes " FROM:") (cmdLine.drop 4) = false
  · rw [if_pos hsyntax]
    exact .stay
  rw [if_neg hsyntax]
  by_cases htls : c.mustStarttls p = true
  · rw [if_pos htls]
    exact .stay
  rw [if_neg htls]
  have htls' : c.mustStarttls p = false := by simpa using htls
  by_cases hempty : (mailAddr cmdLine).localPart = [] ∨ (mailAddr cmdLine).domain = []
  · rw [if_pos hempty]
    exact .stay
  rw [if_neg hempty]
  cases hmode : p.runningMode with
  | inbound => exact houtside htls'
  | outbound => exact hlocal htls' (by simp [hmode])
  | mixture =>
    simp only
    split_ifs
    · exact houtside htls'
    · exact hlocal htls' (by simp [hmode])

lemma cmdRcpt_moves : LineMove p cmdLine c (cmdRcpt p s cmdLine c).context := by
  unfold cmdRcpt
  split_ifs with hsyntax htls hempty hwithin hrelay
  · exact .stay
  · exact .stay
  · exact .stay
  · exact .stay
  · rcases @checkRecipient_cases s cmdLine c with h | h
    · rw [h.1]
      exact .stay
    · rw [h]
      exact .recipient (by simpa using htls) hwithin
  · exact .stay

lemma cmdData_moves (hmax : c.sessionNum ≠ p.maxMailSessions) :
    LineMove p cmdLine c (cmdData p s cmdLine c).context := by
  unfold cmdData
  split_ifs with hcmd honly htls
  · exact .stay
  · exact .stay
  · exact .stay
  · have hdata : LineMove p cmdLine c { c with lastCmd := .data } :=
      .data (by simpa using htls) (not_not.mp hcmd) hmax
    split
    · exact .stay
    · exact .stay
    · split <;> exact hdata

lemma casePrefix_of_data (h : command cmdLine = .data) :
    casePrefix (bytes "DATA") cmdLine = true := by
  by_contra hdata
  have helse : ∀ (b : Bool) (w : Command), w ≠ .data → ∀ v : Command, v ≠ .data →
      (if b = true then w else v) ≠ .data := by
    intro b w hw v hv
    cases b with
    | false => exact hv
    | true => exact hw
  unfold command at h
  rw [if_neg hdata] at h
  refine absurd h ?_
  repeat' first
    | exact helse _ _ (by decide) _ (by decide)
    | refine helse _ _ (by decide) _ ?_

/-- What `smtp_parser_dispatch_cmd` can make of the context. -/
lemma dispatchCmd_moves (hgo : (dispatchCmd p s cmdLine c).dispatch ≠ .shouldClose) :
    LineMove p cmdLine c (dispatchCmd p s cmdLine c).context := by
  unfold dispatchCmd at hgo ⊢
  split_ifs at hgo ⊢ with hlong hmany
  · exact .stay
  · exact absurd rfl hgo
  · cases hcommand : command cmdLine with
    | helo =>
      simp only [hcommand, cmdHelo] at hgo ⊢
      split_ifs
      · exact .stay
      · exact .stay
      · exact .reset .helo (by decide)
    | ehlo =>
      simp only [hcommand, cmdEhlo] at hgo ⊢
      split_ifs
      · exact .stay
      · exact .stay
      · exact .reset .ehlo (by decide)
    | starttls =>
      simp only [hcommand, cmdStarttls] at hgo ⊢
      split_ifs
      · exact .stay
      · exact .stay
      · exact .reset .starttls (by decide)
    | auth =>
      simp only [hcommand, cmdAuth] at hgo ⊢
      split_ifs at hgo ⊢ with htls hmode harg hlogin
      · exact .stay
      · exact .stay
      · exact .stay
      · exact .stay
      · exact authServiceInteract_moves (.inl ⟨by simpa using htls, fun h => hmode (.inl h)⟩) hgo
    | mail => exact cmdMail_moves
    | rcpt => exact cmdRcpt_moves
    | data =>
      simp only [hcommand] at hgo ⊢
      by_cases hmax : c.sessionNum = p.maxMailSessions
      · -- the line is then `QUIT`, and this is not `DATA`
        have hquit : casePrefix (bytes "QUIT") cmdLine = true := by
          by_contra hq
          exact hmany ⟨hmax, .inr (by simpa using hq)⟩
        have hsame : (bytes "QUIT").map tolower = (bytes "DATA").map tolower := by
          rw [← beq_iff_eq.mp hquit, ← beq_iff_eq.mp (casePrefix_of_data hcommand)]
          rfl
        exact absurd hsame (by decide)
      · exact cmdData_moves hmax
    | rset =>
      simp only [hcommand, cmdRset] at hgo ⊢
      split_ifs
      · exact .stay
      · exact .reset .rset (by decide)
    | noop =>
      simp only [hcommand, cmdNoop] at hgo ⊢
      split_ifs <;> exact .stay
    | help =>
      simp only [hcommand, cmdHelp] at hgo ⊢
      split_ifs <;> exact .stay
    | vrfy =>
      simp only [hcommand, cmdVrfy] at hgo ⊢
      split_ifs <;> exact .stay
    | quit =>
      simp only [hcommand, cmdQuit] at hgo ⊢
      split_ifs <;> exact .stay
    | etrn =>
      simp only [hcommand, cmdEtrn] at hgo ⊢
      split_ifs <;> exact .stay
    | «else» =>
      simp only [hcommand, cmdElse] at hgo ⊢
      split_ifs at hgo ⊢ with hprocess
      · exact authServiceInteract_moves (.inr hprocess) hgo
      · exact .stay

/-- What a step that keeps the connection open can make of the context. -/
inductive Moves (p : Params) (c : SmtpContext) : SmtpContext → Prop
  | line (cmdLine : List UInt8) (c' : SmtpContext) : c.lastCmd ≠ .data → c.flushing = none →
      LineMove p cmdLine c c' → Moves p c c'
  | tls : c.lastCmd = .starttls → c.flushing = none →
      Moves p c { c with ssl := true, lastCmd := .none }
  | message (whole : Bool) : c.lastCmd = .data → c.flushing = none →
      Moves p c { c with
        lastCmd := if whole then .endMail else .data
        flushing := some (if whole then .wholeMail else .partMail) }
  | flushedWhole : c.flushing = some .wholeMail →
      Moves p c { c with sessionNum := c.sessionNum + 1 }.resetSession
  | flushedPart : c.flushing = some .partMail → Moves p c { c with flushing := none }
  | flushFailed : c.flushing ≠ none → Moves p c c.resetSession

lemma process_moves {event : Event} {o : Outcome} (h : process p s c event = some o)
    (hgo : o.dispatch ≠ .shouldClose) : Moves p c o.context := by
  cases event with
  | line l =>
    rw [process] at h
    split_ifs at h with hbusy hnil
    · cases h
      exact .line [] _ (fun hd => hbusy (.inl hd)) (not_not.mp fun hf => hbusy (.inr hf)) .stay
    · cases h
      exact .line l _ (fun hd => hbusy (.inl hd)) (not_not.mp fun hf => hbusy (.inr hf))
        (dispatchCmd_moves hgo)
  | handshake accepted =>
    obtain ⟨⟨hcmd, hflush⟩, h⟩ := Option.ite_none_right_eq_some.mp h
    obtain rfl := Option.some.inj h
    cases accepted with
    | false => exact absurd rfl hgo
    | true => exact .tls hcmd hflush
  | message whole tooLong passes =>
    obtain ⟨⟨hcmd, hflush⟩, h⟩ := Option.ite_none_right_eq_some.mp h
    obtain rfl := Option.some.inj h
    unfold tryFlushMail at hgo ⊢
    by_cases hlong : (tooLong && !whole) = true
    · rw [if_pos hlong] at hgo
      exact absurd rfl hgo
    · rw [if_neg hlong] at hgo ⊢
      cases passes with
      | false => exact absurd rfl hgo
      | true => exact .message whole hcmd hflush
  | flushed result =>
    obtain ⟨action, hflush, rfl⟩ := Option.map_eq_some_iff.mp h
    have hbusy : c.flushing ≠ none := by
      rw [hflush]
      exact Option.some_ne_none action
    cases result with
    | ok =>
      cases action with
      | wholeMail => exact .flushedWhole hflush
      | partMail => exact .flushedPart hflush
    | tempFail => exact .flushFailed hbusy
    | permanentFail => exact absurd rfl hgo
  | lost =>
    cases h
    exact absurd rfl hgo

/-- What every move keeps holds all along a session. -/
lemma Session.keeps {I : SmtpContext → Prop} {c₀ : SmtpContext} {entries : List Entry}
    (keep : ∀ c c', I c → Moves p c c' → I c') (h : Session p c₀ entries c) (h₀ : I c₀) : I c := by
  refine Run.invariant (fun c e c' hI hadm hstep => ?_) h h₀
  subst hadm
  obtain ⟨o, hp, hgo, -, rfl⟩ := hstep
  exact keep _ _ hI (process_moves hp hgo)

end SteepSystem.Smtp
