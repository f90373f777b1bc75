import SteepSystem.Smtp.Model

/-!
What each command, and each step of a connection, does to the envelope.
-/

namespace SteepSystem.Smtp

open SteepSystem.Lib.CStrings

/-- The context is within a transaction. -/
def SmtpContext.Within (c : SmtpContext) : Prop := c.lastCmd = .mail ∨ c.lastCmd = .rcpt

/-- Nothing is taken into the envelope: a transaction goes on as it is, or is left. -/
structure Quiet (c c' : SmtpContext) : Prop where
  within : c'.Within → c.Within ∧ c'.envelop.sender = c.envelop.sender ∧
    c'.envelop.rcptTo = c.envelop.rcptTo
  rcptTo : c'.envelop.rcptTo = c.envelop.rcptTo ∨ c'.envelop.rcptTo = []
  isOutbound : c'.envelop.isOutbound = c.envelop.isOutbound
  isRelay : c'.envelop.isRelay = c.envelop.isRelay
  isLogin : c.envelop.isLogin = true → c'.envelop.isLogin = true

variable {p : Params} {s : SystemServices} {cmdLine : List UInt8} {c c' : SmtpContext}

lemma Quiet.refl (c : SmtpContext) : Quiet c c :=
  ⟨fun h => ⟨h, rfl, rfl⟩, .inl rfl, rfl, rfl, id⟩

/-- A step out of a transaction, or from outside one to outside. -/
lemma Quiet.leave (hcmd : ¬ c'.Within)
    (hrcpt : c'.envelop.rcptTo = c.envelop.rcptTo ∨ c'.envelop.rcptTo = [])
    (hout : c'.envelop.isOutbound = c.envelop.isOutbound)
    (hrelay : c'.envelop.isRelay = c.envelop.isRelay)
    (hlogin : c.envelop.isLogin = true → c'.envelop.isLogin = true) : Quiet c c' :=
  ⟨fun h => absurd h hcmd, hrcpt, hout, hrelay, hlogin⟩

/-- Refused, with nothing changed. -/
def Refused (c : SmtpContext) (o : Outcome) : Prop :=
  o.context = c ∧ o.reply ≠ some (.code .code2172005)

lemma refused_answer {r : SmtpCode} (h : r ≠ .code2172005) : Refused c (c.answer r) :=
  ⟨rfl, by simpa [SmtpContext.answer] using h⟩

/-- A sender is refused, or taken; then outside recipients are open to him only by right. -/
def SenderHeard (p : Params) (cmdLine : List UInt8) (c : SmtpContext) (o : Outcome) : Prop :=
  Refused c o ∨ ∃ out, (out = true → p.needAuth = true →
    c.envelop.isRelay = true ∨ c.envelop.isLogin = true) ∧ o = takeSender cmdLine c out

lemma takeOutsideSender_heard : SenderHeard p cmdLine c (takeOutsideSender cmdLine c) := by
  unfold takeOutsideSender
  split_ifs
  · exact .inr ⟨false, fun h => absurd h (by decide), rfl⟩
  · exact .inl (refused_answer (by decide))

lemma takeLocalSender_heard : SenderHeard p cmdLine c (takeLocalSender p cmdLine c) := by
  unfold takeLocalSender
  split_ifs with hneed hmay
  · exact .inr ⟨true, fun _ _ => by simpa using hmay, rfl⟩
  · exact .inl (refused_answer (by decide))
  · exact .inr ⟨true, fun _ h => absurd h hneed, rfl⟩

lemma cmdMail_heard (p : Params) (s : SystemServices) (cmdLine : List UInt8)
    (c : SmtpContext) :
    SenderHeard p cmdLine c (cmdMail p s cmdLine c) := by
  unfold cmdMail
  split_ifs with hsyntax htls hempty
  · exact .inl (refused_answer (by decide))
  · exact .inl (refused_answer (by decide))
  · exact .inl (refused_answer (by decide))
  · cases p.runningMode with
    | inbound => exact takeOutsideSender_heard
    | outbound => exact takeLocalSender_heard
    | mixture => exact takeOutsideSender_heard
  · cases p.runningMode with
    | inbound => exact takeOutsideSender_heard
    | outbound => exact takeLocalSender_heard
    | mixture => exact takeLocalSender_heard

lemma checkRecipient_cases : Refused c (checkRecipient s cmdLine c) ∨
    checkRecipient s cmdLine c = takeRecipient cmdLine c := by
  unfold checkRecipient
  split_ifs
  · cases s.checkUser with
    | none => exact .inr rfl
    | some checkUser =>
      dsimp only
      cases checkUser (rcptAddr cmdLine).text with
      | none => exact .inl (refused_answer (by decide))
      | some path =>
        cases s.checkFull with
        | none => exact .inr rfl
        | some checkFull =>
          dsimp only
          split_ifs
          · exact .inl (refused_answer (by decide))
          · exact .inr rfl
  · exact .inr rfl

/-- `RCPT` refuses or takes a recipient, whose domain is then local where it has to be. -/
lemma cmdRcpt_cases (p : Params) (s : SystemServices) (cmdLine : List UInt8)
    (c : SmtpContext) :
    Refused c (cmdRcpt p s cmdLine c) ∨
    c.Within ∧ (c.envelop.isOutbound = false → c.envelop.isRelay = false →
        p.smtpParserDomainlistValid = true → s.checkDomain (rcptAddr cmdLine).domain = true) ∧
      cmdRcpt p s cmdLine c = takeRecipient cmdLine c := by
  unfold cmdRcpt
  split_ifs with h1 h2 h3 h4 h5
  · exact .inl (refused_answer (by decide))
  · exact .inl (refused_answer (by decide))
  · exact .inl (refused_answer (by decide))
  · exact .inl ⟨rfl, by simp [SmtpContext.refuse]⟩
  · refine checkRecipient_cases.imp_right fun h => ⟨h4, fun hout hrelay hvalid => ?_, h⟩
    by_contra hdomain
    exact h5 ⟨hout, hrelay, hvalid, by simpa using hdomain⟩
  · exact .inl (refused_answer (by decide))

lemma quiet_resetEnvelop {cmd : LastCmd} (hcmd : cmd ≠ .mail ∧ cmd ≠ .rcpt) :
    Quiet c { c.resetEnvelop with lastCmd := cmd } :=
  .leave (fun h => h.elim hcmd.1 hcmd.2) (.inr rfl) rfl rfl id

lemma quiet_authServiceInteract : Quiet c (authServiceInteract p s cmdLine c).context := by
  unfold authServiceInteract
  split
  · split_ifs
    · exact .refl c
    · exact ⟨fun h => ⟨h, rfl, rfl⟩, .inl rfl, rfl, rfl, id⟩
    · exact .leave (by simp [SmtpContext.Within]) (.inl rfl) rfl rfl id
  · exact .leave (by simp [SmtpContext.Within]) (.inl rfl) rfl rfl id
  · split_ifs
    · exact .refl c
    · exact .leave (by simp [SmtpContext.Within]) (.inl rfl) rfl rfl fun _ => rfl

lemma cmdData_cases (p : Params) (s : SystemServices) (cmdLine : List UInt8)
    (c : SmtpContext) :
    (cmdData p s cmdLine c).context = c ∧
      (cmdData p s cmdLine c).reply ≠ some (.code .code2173003) ∨
    c.lastCmd = .rcpt ∧ (cmdData p s cmdLine c).context = { c with lastCmd := .data } := by
  unfold cmdData
  split_ifs with hcmd
  · exact .inl ⟨rfl, by simp [SmtpContext.answer]⟩
  · exact .inl ⟨rfl, by simp [SmtpContext.answer]⟩
  · exact .inl ⟨rfl, by simp [SmtpContext.answer]⟩
  · split
    · exact .inl ⟨rfl, by simp⟩
    · exact .inl ⟨rfl, by simp⟩
    · split
      · exact .inr ⟨not_not.mp hcmd, rfl⟩
      · exact .inr ⟨not_not.mp hcmd, rfl⟩
      · exact .inr ⟨not_not.mp hcmd, rfl⟩

/-- The other commands take nothing. -/
lemma quiet_dispatchCmd (hmail : command cmdLine ≠ .mail) (hrcpt : command cmdLine ≠ .rcpt) :
    Quiet c (dispatchCmd p s cmdLine c).context := by
  unfold dispatchCmd
  split_ifs
  · exact .refl c
  · exact .refl c
  · split
    · unfold cmdHelo
      split_ifs
      · exact .refl c
      · exact .refl c
      · exact quiet_resetEnvelop (by decide)
    · unfold cmdEhlo
      split_ifs
      · exact .refl c
      · exact .refl c
      · exact quiet_resetEnvelop (by decide)
    · unfold cmdStarttls
      split_ifs
      · exact .refl c
      · exact .refl c
      · exact quiet_resetEnvelop (by decide)
    · unfold cmdAuth
      split_ifs
      · exact .refl c
      · exact .refl c
      · exact .refl c
      · exact .refl c
      · exact quiet_authServiceInteract
    · contradiction
    · contradiction
    · rcases cmdData_cases p s cmdLine c with ⟨h, -⟩ | ⟨-, h⟩
      · rw [h]
        exact .refl c
      · rw [h]
        exact .leave (by simp [SmtpContext.Within]) (.inl rfl) rfl rfl id
    · unfold cmdRset
      split_ifs
      · exact .refl c
      · exact .leave (by simp [SmtpContext.Within, SmtpContext.answer, SmtpContext.resetEnvelop])
          (.inr rfl) rfl rfl id
    · unfold cmdNoop
      split_ifs <;> exact .refl c
    · unfold cmdHelp
      split_ifs <;> exact .refl c
    · unfold cmdVrfy
      split_ifs <;> exact .refl c
    · unfold cmdQuit
      split_ifs <;> exact .refl c
    · unfold cmdEtrn
      split_ifs <;> exact .refl c
    · unfold cmdElse
      split_ifs
      · exact quiet_authServiceInteract
      · exact .refl c

/-- A sender is taken by an accepted `MAIL`, a recipient by an accepted `RCPT`. -/
inductive Taken (p : Params) (s : SystemServices) (cmdLine : List UInt8) (c : SmtpContext) :
    Outcome → Prop
  | sender (out : Bool) : command cmdLine = .mail →
      (out = true → p.needAuth = true → c.envelop.isRelay = true ∨ c.envelop.isLogin = true) →
      Taken p s cmdLine c (takeSender cmdLine c out)
  | recipient : command cmdLine = .rcpt → c.Within →
      (c.envelop.isOutbound = false → c.envelop.isRelay = false →
        p.smtpParserDomainlistValid = true → s.checkDomain (rcptAddr cmdLine).domain = true) →
      Taken p s cmdLine c (takeRecipient cmdLine c)

lemma Taken.reply {o : Outcome} (h : Taken p s cmdLine c o) :
    o.reply = some (.code .code2172005) := by
  cases h with
  | sender out hcmd hright => rfl
  | recipient hcmd hin hdomain => rfl

lemma dispatchCmd_cases (p : Params) (s : SystemServices) (cmdLine : List UInt8)
    (c : SmtpContext) :
    Taken p s cmdLine c (dispatchCmd p s cmdLine c) ∨
    Quiet c (dispatchCmd p s cmdLine c).context ∧
      (command cmdLine = .mail ∨ command cmdLine = .rcpt →
        (dispatchCmd p s cmdLine c).reply ≠ some (.code .code2172005)) := by
  have hrefused : ∀ o, Refused c o → Quiet c o.context ∧
      (command cmdLine = .mail ∨ command cmdLine = .rcpt →
        o.reply ≠ some (.code .code2172005)) := by
    intro o ho
    exact ⟨ho.1 ▸ .refl c, fun _ => ho.2⟩
  by_cases hmail : command cmdLine = .mail
  · unfold dispatchCmd
    split_ifs
    · exact .inr (hrefused _ (refused_answer (by decide)))
    · exact .inr (hrefused _ ⟨rfl, by simp [SmtpContext.refuse]⟩)
    · simp only [hmail]
      rcases cmdMail_heard p s cmdLine c with h | ⟨out, hout, h⟩
      · simpa [hmail] using Or.inr (hrefused _ h)
      · rw [h]
        exact .inl (.sender out hmail hout)
  · by_cases hrcpt : command cmdLine = .rcpt
    · unfold dispatchCmd
      split_ifs
      · exact .inr (hrefused _ (refused_answer (by decide)))
      · exact .inr (hrefused _ ⟨rfl, by simp [SmtpContext.refuse]⟩)
      · simp only [hrcpt]
        rcases cmdRcpt_cases p s cmdLine c with h | ⟨hin, hdom, h⟩
        · simpa [hrcpt] using Or.inr (hrefused _ h)
        · rw [h]
          exact .inl (.recipient hrcpt hin hdom)
    · exact .inr ⟨quiet_dispatchCmd hmail hrcpt, fun h => absurd h (not_or.mpr ⟨hmail, hrcpt⟩)⟩

/-! ### Between the lines -/

lemma quiet_acceptTls (c : SmtpContext) (accepted : Bool) :
    Quiet c (acceptTls c accepted).context := by
  cases accepted with
  | false => exact .refl c
  | true => exact .leave (by simp [SmtpContext.Within, acceptTls]) (.inl rfl) rfl rfl id

lemma quiet_tryFlushMail (c : SmtpContext) (whole tooLong passes : Bool) :
    Quiet c (tryFlushMail { c with lastCmd := if whole then .endMail else .data } whole tooLong
      passes).context := by
  have hquiet : ∀ f, Quiet c
      { c with lastCmd := if whole then .endMail else .data, flushing := f } := by
    intro f
    refine .leave ?_ (.inl rfl) rfl rfl id
    cases whole <;> simp [SmtpContext.Within]
  unfold tryFlushMail
  by_cases hlong : (tooLong && !whole) = true
  · rw [if_pos hlong]
    exact hquiet _
  · rw [if_neg hlong]
    cases passes with
    | false => exact hquiet _
    | true => exact hquiet _

lemma quiet_afterFlush (c : SmtpContext) (action : FlushAction) (result : FlushResult) :
    Quiet c (afterFlush c action result).context := by
  have hout : ¬ c.resetSession.Within := by simp [SmtpContext.Within, SmtpContext.resetSession]
  cases result with
  | ok =>
    cases action with
    | wholeMail => exact .leave hout (.inr rfl) rfl rfl id
    | partMail => exact ⟨fun h => ⟨h, rfl, rfl⟩, .inl rfl, rfl, rfl, id⟩
  | tempFail => exact .leave hout (.inr rfl) rfl rfl id
  | permanentFail => exact .refl c

/-- What happens between the lines takes nothing. -/
lemma quiet_process {event : Event} {o : Outcome} (h : process p s c event = some o)
    (hline : ∀ l, event ≠ .line l) : Quiet c o.context := by
  cases event with
  | line l => exact absurd rfl (hline l)
  | handshake accepted =>
    rw [process] at h
    split_ifs at h
    exact Option.some.inj h ▸ quiet_acceptTls c accepted
  | message whole tooLong passes =>
    obtain ⟨-, h⟩ := Option.ite_none_right_eq_some.mp h
    exact Option.some.inj h ▸ quiet_tryFlushMail c whole tooLong passes
  | flushed result =>
    obtain ⟨action, -, rfl⟩ := Option.map_eq_some_iff.mp h
    exact quiet_afterFlush c action result
  | lost =>
    cases h
    exact .refl c

end SteepSystem.Smtp
