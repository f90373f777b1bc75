import SteepSystem.Lib.Runs
import SteepSystem.Smtp.Commands

/-!
What the client has been told in a session, and the envelope that its messages are sent with.
-/

namespace SteepSystem.Smtp

open SteepSystem.Lib.CStrings SteepSystem.Lib.Runs

/-! ### What the client has been told -/

/-- One step of a session: `context` is the one it is taken in. -/
structure Entry where
  context : SmtpContext
  services : SystemServices
  event : Event
  reply : Option Reply

/-- A sender who has been taken, what `f_rcpt_to` held then, and the recipients taken since. -/
structure Transaction where
  sender : List UInt8
  left : List (List UInt8)
  rcpts : List (List UInt8)
  deriving DecidableEq

/-- The last transaction, and the recipients of the session whose domains were found to be local
as they were taken. -/
structure Record where
  transaction : Option Transaction
  checked : List (List UInt8)

def Record.takeSender (r : Record) (e : Entry) (cmdLine : List UInt8) : Record :=
  { r with transaction := some ⟨(mailAddr cmdLine).text, e.context.envelop.rcptTo, []⟩ }

def Record.takeRecipient (r : Record) (e : Entry) (cmdLine : List UInt8) : Record :=
  { transaction := r.transaction.map fun t =>
      { t with rcpts := t.rcpts ++ [(rcptAddr cmdLine).text] }
    checked := if e.services.checkDomain (rcptAddr cmdLine).domain then
      r.checked ++ [(rcptAddr cmdLine).text] else r.checked }

/-- A `MAIL` or a `RCPT` is accepted by 250. -/
def Record.next (r : Record) (e : Entry) : Record :=
  match e.event with
  | .line l =>
    if e.reply = some (.code .code2172005) then
      match command l with
      | .mail => r.takeSender e l
      | .rcpt => r.takeRecipient e l
      | _ => r
    else r
  | _ => r

def record (entries : List Entry) : Record := entries.foldl Record.next ⟨none, []⟩

/-- The step of an entry. The connection stays open. -/
def Entry.Leads (p : Params) (e : Entry) (c' : SmtpContext) : Prop :=
  ∃ o, process p e.services e.context e.event = some o ∧ o.dispatch ≠ .shouldClose ∧
    o.reply = e.reply ∧ o.context = c'

/-- The entries of a session lead from one context to another. -/
abbrev Session (p : Params) : SmtpContext → List Entry → SmtpContext → Prop :=
  Run (fun c e => e.context = c) fun _ e c' => e.Leads p c'

/-- The envelope is that of the last transaction, and no recipient is let through to elsewhere for
a client who is neither logged in nor a relay. -/
structure Delivers (p : Params) (r : Record) (e : Envelop) : Prop where
  envelop : ∃ t, r.transaction = some t ∧ e.sender = t.sender ∧ e.rcptTo = t.rcpts
  checked : p.needAuth = true → p.smtpParserDomainlistValid = true → e.isLogin = false →
    e.isRelay = false → ∀ a ∈ e.rcptTo, a ∈ r.checked

/-! ### The envelope along a session -/

variable {p : Params} {s : SystemServices} {cmdLine : List UInt8} {c c' : SmtpContext}
  {r : Record} {e : Entry} {entries : List Entry}

/-- A step of a session takes a sender, or a recipient, or nothing. -/
lemma Entry.Leads.cases (h : e.Leads p c') (r : Record) :
    (∃ cmdLine o, Taken p e.services cmdLine e.context o ∧ e.event = .line cmdLine ∧
      c' = o.context ∧ e.reply = some (.code .code2172005)) ∨ Quiet e.context c' ∧ r.next e = r := by
  obtain ⟨o, hp, -, hreply, rfl⟩ := h
  by_cases hline : ∃ l, e.event = .line l
  · obtain ⟨l, hl⟩ := hline
    rw [hl, process] at hp
    split_ifs at hp with hdata hnil
    · cases hp
      refine .inr ⟨.refl _, ?_⟩
      rw [Record.next, hl, ← hreply]
      rfl
    · cases hp
      rcases dispatchCmd_cases p e.services l e.context with
        htaken | ⟨hquiet, hother⟩
      · exact .inl ⟨l, _, htaken, hl, rfl, hreply.symm.trans htaken.reply⟩
      · refine .inr ⟨hquiet, ?_⟩
        rw [Record.next, hl, ← hreply]
        dsimp only
        split_ifs with hok
        · split
          · rename_i hcmd
            exact absurd hok (hother (.inl hcmd))
          · rename_i hcmd
            exact absurd hok (hother (.inr hcmd))
          · rfl
        · rfl
  · have hline' : ∀ l, e.event ≠ .line l := fun l hl => hline ⟨l, hl⟩
    refine .inr ⟨quiet_process hp hline', ?_⟩
    rw [Record.next]
    split
    · rename_i l hl
      exact absurd hl (hline' l)
    · rfl

/-- Recipients of the client have to be local. -/
structure Guarded (p : Params) (c : SmtpContext) : Prop where
  needAuth : p.needAuth = true
  valid : p.smtpParserDomainlistValid = true
  isLogin : c.envelop.isLogin = false
  isRelay : c.envelop.isRelay = false

/-- Within a transaction the envelope is its sender, with what the list held before it and what
it has added; and the list of a client whose recipients have to be local has been checked. -/
structure Tracks (p : Params) (c : SmtpContext) (r : Record) : Prop where
  within : c.Within → ∃ t, r.transaction = some t ∧ c.envelop.sender = t.sender ∧
    c.envelop.rcptTo = t.left ++ t.rcpts
  inbound : Guarded p c → c.Within → c.envelop.isOutbound = false
  checked : Guarded p c → ∀ a ∈ c.envelop.rcptTo, a ∈ r.checked

lemma tracks_connected (onSslPort isOutbound isRelay : Bool) :
    Tracks p (connected onSslPort isOutbound isRelay) ⟨none, []⟩ := by
  have hout : ¬ (connected onSslPort isOutbound isRelay).Within := by
    cases onSslPort <;> simp [SmtpContext.Within, connected]
  exact ⟨fun h => absurd h hout, fun _ h => absurd h hout,
    fun _ a ha => absurd ha (by simp [connected])⟩

lemma Guarded.of_quiet (hquiet : Quiet c c') (h : Guarded p c') : Guarded p c := by
  refine ⟨h.needAuth, h.valid, ?_, hquiet.isRelay ▸ h.isRelay⟩
  by_contra hlogin
  have := hquiet.isLogin (by simpa using hlogin)
  rw [h.isLogin] at this
  exact absurd this (by decide)

lemma Tracks.quiet (h : Tracks p c r) (hquiet : Quiet c c') : Tracks p c' r := by
  refine ⟨fun hin => ?_, fun hg hin => ?_, fun hg a ha => ?_⟩
  · obtain ⟨hin', hsender, hrcpt⟩ := hquiet.within hin
    obtain ⟨t, ht, hs, hr⟩ := h.within hin'
    exact ⟨t, ht, hsender.trans hs, hrcpt.trans hr⟩
  · exact hquiet.isOutbound.trans (h.inbound (hg.of_quiet hquiet) (hquiet.within hin).1)
  · rcases hquiet.rcptTo with heq | hnil
    · exact h.checked (hg.of_quiet hquiet) a (heq ▸ ha)
    · rw [hnil] at ha
      exact absurd ha List.not_mem_nil

lemma Tracks.taken {o : Outcome} (h : Tracks p e.context r)
    (ht : Taken p e.services cmdLine e.context o) (hevent : e.event = .line cmdLine)
    (hreply : e.reply = some (.code .code2172005)) : Tracks p o.context (r.next e) := by
  cases ht with
  | sender out hcmd hright =>
    have hnext : r.next e = r.takeSender e cmdLine := by simp [Record.next, hevent, hreply, hcmd]
    rw [hnext]
    refine ⟨fun _ => ⟨_, rfl, rfl, (List.append_nil _).symm⟩, fun hg _ => ?_, fun hg a ha => ?_⟩
    · -- A guarded client has no right to send out.
      change out = false
      by_contra hout
      rcases hright (by simpa using hout) hg.needAuth with hrelay | hlogin
      · exact absurd (hg.isRelay.symm.trans hrelay) (by decide)
      · exact absurd (hg.isLogin.symm.trans hlogin) (by decide)
    · exact h.checked ⟨hg.needAuth, hg.valid, hg.isLogin, hg.isRelay⟩ a ha
  | recipient hcmd hin hdomain =>
    have hnext : r.next e = r.takeRecipient e cmdLine := by
      simp [Record.next, hevent, hreply, hcmd]
    rw [hnext]
    obtain ⟨t, ht, hsender, hrcpt⟩ := h.within hin
    refine ⟨fun _ => ⟨{ t with rcpts := t.rcpts ++ [(rcptAddr cmdLine).text] }, ?_, hsender, ?_⟩,
      fun hg _ => ?_, fun hg a ha => ?_⟩
    · rw [Record.takeRecipient, ht]
      rfl
    · show e.context.envelop.rcptTo ++ _ = _
      rw [hrcpt, List.append_assoc]
    · exact h.inbound ⟨hg.needAuth, hg.valid, hg.isLogin, hg.isRelay⟩ hin
    · have hg' : Guarded p e.context := ⟨hg.needAuth, hg.valid, hg.isLogin, hg.isRelay⟩
      have hlocal := hdomain (h.inbound hg' hin) hg'.isRelay hg'.valid
      rw [Record.takeRecipient, if_pos hlocal]
      rcases List.mem_append.mp ha with ha | ha
      · exact List.mem_append_left _ (h.checked hg' a ha)
      · exact List.mem_append_right _ ha

/-- What one step keeps, a session keeps. -/
lemma Session.tracks {onSslPort isOutbound isRelay : Bool}
    (h : Session p (connected onSslPort isOutbound isRelay) entries c) :
    Tracks p c (record entries) := by
  refine Run.simulates (R := Tracks p) (fun c r e c' htr hadm hstep => ?_) h
    (tracks_connected onSslPort isOutbound isRelay)
  subst hadm
  rcases hstep.cases r with ⟨cmdLine, o, htaken, hevent, rfl, hreply⟩ | ⟨hquiet, hnext⟩
  · exact htr.taken htaken hevent hreply
  · rw [hnext]
    exact htr.quiet hquiet

/-- `DATA` is accepted with a recipient as the last command, and leaves the envelope alone. -/
lemma envelop_of_data {o : Outcome} (hdata : process p s c (.line cmdLine) = some o)
    (hcmd : command cmdLine = .data) (haccepted : o.reply = some (.code .code2173003)) :
    c.lastCmd = .rcpt ∧ o.context.envelop = c.envelop := by
  rw [process] at hdata
  split_ifs at hdata with hbusy hnil
  · cases hdata
    cases haccepted
  · obtain rfl := Option.some.inj hdata
    rw [dispatchCmd] at haccepted ⊢
    split_ifs at haccepted ⊢ with hlong hmany
    · cases haccepted
    · cases haccepted
    · rw [hcmd] at haccepted ⊢
      rcases cmdData_cases p s cmdLine c with ⟨-, hreply⟩ | ⟨hlast, hcontext⟩
      · exact absurd haccepted hreply
      · refine ⟨hlast, ?_⟩
        change (cmdData p s cmdLine c).context.envelop = c.envelop
        rw [hcontext]

/-- Whenever `DATA` is accepted, the envelope is that of the transaction exactly if its `MAIL` was
accepted while no recipients were left in the list. -/
theorem data_delivers_iff {onSslPort isOutbound isRelay : Bool} {o : Outcome}
    (h : Session p (connected onSslPort isOutbound isRelay) entries c)
    (hdata : process p s c (.line cmdLine) = some o) (hcmd : command cmdLine = .data)
    (haccepted : o.reply = some (.code .code2173003)) :
    Delivers p (record entries) o.context.envelop ↔
      ∀ t, (record entries).transaction = some t → t.left = [] := by
  have htracks := h.tracks
  obtain ⟨hlast, henvelop⟩ := envelop_of_data hdata hcmd haccepted
  obtain ⟨t, ht, hsender, hlist⟩ := htracks.within (.inr hlast)
  rw [henvelop]
  constructor
  · rintro ⟨⟨t', ht', -, hexact⟩, -⟩ t'' ht''
    obtain rfl := Option.some.inj (ht.symm.trans ht')
    obtain rfl := Option.some.inj (ht.symm.trans ht'')
    exact List.append_left_eq_self.mp (hlist.symm.trans hexact)
  · intro hleft
    refine ⟨⟨t, ht, hsender, ?_⟩, fun hneed hvalid hlogin hrelay => ?_⟩
    · rw [hlist, hleft t ht, List.nil_append]
    · exact htracks.checked ⟨hneed, hvalid, hlogin, hrelay⟩

/-- A server that sends out for everybody. -/
def openParams : Params := ⟨.outbound, false, false, false, true, 3, 10⟩

def openServices : SystemServices :=
  ⟨fun _ => false, none, none, false, fun _ => .error, false, true, .accept, false, false, .nothing⟩

/-- Its context within a transaction. -/
def sending (lastCmd : LastCmd) (sender : String) (rcptTo : List String) : SmtpContext :=
  ⟨false, false, lastCmd, 0, none, ⟨0, bytes sender, rcptTo.map bytes, false, true, false⟩⟩

def said (c : SmtpContext) (text : String) : Entry :=
  ⟨c, openServices, .line (bytes text), some (.code .code2172005)⟩

lemma leads_said {c c' : SmtpContext} {text : String}
    (h : process openParams openServices c (.line (bytes text)) =
      some ⟨c', some (.code .code2172005), .goOn⟩) : (said c text).Leads openParams c' :=
  ⟨_, h, nofun, rfl, rfl⟩

theorem data_delivers_iff_once :
    ∃ (entries : List Entry) (c : SmtpContext) (o : Outcome),
      Session openParams (connected false true false) entries c ∧
      process openParams openServices c (.line (bytes "DATA")) = some o ∧
      o.reply = some (.code .code2173003) ∧
      Delivers openParams (record entries) o.context.envelop := by
  have hmail : (said (connected false true false) "MAIL FROM:<a@b>").Leads openParams
      (sending .mail "a@b" []) := leads_said (by decide +kernel)
  have hrcpt : (said (sending .mail "a@b" []) "RCPT TO:<c@d>").Leads openParams
      (sending .rcpt "a@b" ["c@d"]) := leads_said (by decide +kernel)
  have hdata : process openParams openServices (sending .rcpt "a@b" ["c@d"])
      (.line (bytes "DATA")) =
        some ⟨sending .data "a@b" ["c@d"], some (.code .code2173003), .goOn⟩ := by decide +kernel
  have hsession : Session openParams (connected false true false) _ _ :=
    .cons rfl hmail (.cons rfl hrcpt (.nil _))
  refine ⟨_, _, _, hsession, hdata, rfl, ?_⟩
  have htransaction : (record [said (connected false true false) "MAIL FROM:<a@b>",
      said (sending .mail "a@b" []) "RCPT TO:<c@d>"]).transaction =
        some ⟨bytes "a@b", [], [bytes "c@d"]⟩ := by decide +kernel
  refine (data_delivers_iff hsession hdata (by decide +kernel) rfl).mpr fun t ht => ?_
  obtain rfl := Option.some.inj (htransaction.symm.trans ht)
  rfl

/-- A second `MAIL` keeps the recipients of the first. -/
theorem data_keeps_stale_recipients :
    ∃ (entries : List Entry) (c : SmtpContext) (o : Outcome),
      Session openParams (connected false true false) entries c ∧
      process openParams openServices c (.line (bytes "DATA")) = some o ∧
      o.reply = some (.code .code2173003) ∧
      ¬ Delivers openParams (record entries) o.context.envelop := by
  have hmail : (said (connected false true false) "MAIL FROM:<a@b>").Leads openParams
      (sending .mail "a@b" []) := leads_said (by decide +kernel)
  have hrcpt : (said (sending .mail "a@b" []) "RCPT TO:<c@d>").Leads openParams
      (sending .rcpt "a@b" ["c@d"]) := leads_said (by decide +kernel)
  have hmail' : (said (sending .rcpt "a@b" ["c@d"]) "MAIL FROM:<e@f>").Leads openParams
      (sending .mail "e@f" ["c@d"]) := leads_said (by decide +kernel)
  have hrcpt' : (said (sending .mail "e@f" ["c@d"]) "RCPT TO:<g@h>").Leads openParams
      (sending .rcpt "e@f" ["c@d", "g@h"]) := leads_said (by decide +kernel)
  have hdata : process openParams openServices (sending .rcpt "e@f" ["c@d", "g@h"])
      (.line (bytes "DATA")) =
        some ⟨sending .data "e@f" ["c@d", "g@h"], some (.code .code2173003), .goOn⟩ := by
    decide +kernel
  refine ⟨_, _, _, .cons rfl hmail (.cons rfl hrcpt (.cons rfl hmail' (.cons rfl hrcpt' (.nil _)))),
    hdata, rfl, fun hd => ?_⟩
  have htransaction : (record [said (connected false true false) "MAIL FROM:<a@b>",
      said (sending .mail "a@b" []) "RCPT TO:<c@d>",
      said (sending .rcpt "a@b" ["c@d"]) "MAIL FROM:<e@f>",
      said (sending .mail "e@f" ["c@d"]) "RCPT TO:<g@h>"]).transaction =
        some ⟨bytes "e@f", [bytes "c@d"], [bytes "g@h"]⟩ := by decide +kernel
  obtain ⟨t, ht, -, hrcpts⟩ := hd.envelop
  obtain rfl := Option.some.inj (htransaction.symm.trans ht)
  exact absurd hrcpts (by decide +kernel)

end SteepSystem.Smtp
