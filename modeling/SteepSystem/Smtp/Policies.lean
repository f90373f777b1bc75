import SteepSystem.Smtp.Moves

/-!
What the server never lets a client do, over whole sessions: mail in clear where TLS is forced,
more messages than a connection may have, more guesses at a password, and recipients of an earlier
transaction where the server takes mail from elsewhere.
-/

namespace SteepSystem.Smtp

open SteepSystem.Lib.CStrings SteepSystem.Lib.Runs

variable {p : Params} {c c' : SmtpContext} {entries : List Entry} {cmdLine : List UInt8}

/-! ### TLS -/

/-- Nothing has been taken from the client. -/
structure Bare (c : SmtpContext) : Prop where
  lastCmd : c.lastCmd ∈ [LastCmd.none, .helo, .ehlo, .starttls, .rset]
  isLogin : c.envelop.isLogin = false
  sender : c.envelop.sender = []
  rcptTo : c.envelop.rcptTo = []
  flushing : c.flushing = none

lemma Bare.line (h : Bare c) (hmust : c.mustStarttls p = true) (hmove : LineMove p cmdLine c c') :
    Bare c' := by
  have hclosed : ¬ c.AuthOpen p := by
    rintro (⟨htls, -⟩ | hcmd)
    · rw [hmust] at htls
      cases htls
    · exact absurd h.lastCmd (by rw [hcmd]; decide)
  have hnever : ¬ c.mustStarttls p = false := by
    rw [hmust]
    decide
  cases hmove with
  | stay => exact h
  | reset cmd hcmd =>
    refine ⟨?_, h.isLogin, rfl, rfl, h.flushing⟩
    exact List.mem_of_mem_tail (l := [LastCmd.none, .helo, .ehlo, .starttls, .rset]) hcmd
  | authFailed hopen => exact absurd hopen hclosed
  | authContinued hopen => exact absurd hopen hclosed
  | loggedIn hopen => exact absurd hopen hclosed
  | sender out htls => exact absurd htls hnever
  | recipient htls => exact absurd htls hnever
  | data htls => exact absurd htls hnever

lemma ssl_line (hmove : LineMove p cmdLine c c') : c'.ssl = c.ssl := by
  cases hmove <;> rfl

/-- Where TLS is forced, a client without it has given nothing. -/
lemma bare_or_ssl (hsupport : p.supportStarttls = true) (hforce : p.forceStarttls = true)
    (h : c.ssl = true ∨ Bare c) (hmove : Moves p c c') : c'.ssl = true ∨ Bare c' := by
  rcases h with hssl | hbare
  · cases hmove with
    | line _ _ _ _ hline => exact .inl ((ssl_line hline).trans hssl)
    | tls => exact .inl rfl
    | message => exact .inl hssl
    | flushedWhole => exact .inl hssl
    | flushedPart => exact .inl hssl
    | flushFailed => exact .inl hssl
  · have hdata : c.lastCmd ≠ .data := by
      intro hcmd
      exact absurd hbare.lastCmd (by rw [hcmd]; decide)
    cases hmove with
    | line cmdLine _ _ _ hline =>
      cases hssl : c.ssl with
      | true => exact .inl ((ssl_line hline).trans hssl)
      | false =>
        refine .inr (hbare.line ?_ hline)
        simp [SmtpContext.mustStarttls, hsupport, hforce, hssl]
    | tls => exact .inl rfl
    | message _ hcmd => exact absurd hcmd hdata
    | flushedWhole hflush => exact absurd (hbare.flushing.symm.trans hflush) (by simp)
    | flushedPart hflush => exact absurd (hbare.flushing.symm.trans hflush) (by simp)
    | flushFailed hflush => exact absurd hbare.flushing hflush

/-- **Where TLS is forced, nothing is taken in clear**: who is logged in or is being asked for a
password, or has a sender, a recipient or a message taken, has TLS. -/
theorem encrypted_of_session {onSslPort isOutbound isRelay : Bool}
    (hsupport : p.supportStarttls = true) (hforce : p.forceStarttls = true)
    (h : Session p (connected onSslPort isOutbound isRelay) entries c)
    (hgiven : c.envelop.isLogin = true ∨ c.envelop.sender ≠ [] ∨ c.envelop.rcptTo ≠ [] ∨
      c.lastCmd ∈ [LastCmd.authProcess, .logged, .mail, .rcpt, .data, .endMail]) :
    c.ssl = true := by
  have hstart : Bare (connected onSslPort isOutbound isRelay) := by
    refine ⟨?_, rfl, rfl, rfl, rfl⟩
    cases onSslPort <;> simp [connected]
  have hkeep := h.keeps (I := fun c => c.ssl = true ∨ Bare c)
    (fun _ _ => bare_or_ssl hsupport hforce) (.inr hstart)
  refine hkeep.resolve_right fun hbare => ?_
  rcases hgiven with hlogin | hsender | hrcpt | hcmd
  · exact absurd (hbare.isLogin.symm.trans hlogin) (by decide)
  · exact hsender hbare.sender
  · exact hrcpt hbare.rcptTo
  · have hlast := hbare.lastCmd
    revert hcmd hlast
    cases c.lastCmd <;> decide

lemma Entry.leads {e : Entry}
    (h : process p e.services e.context e.event = some ⟨c', e.reply, .goOn⟩) : e.Leads p c' :=
  ⟨_, h, nofun, rfl, rfl⟩

/-- A server that forces TLS. -/
def tlsParams : Params := { openParams with supportStarttls := true, forceStarttls := true }

theorem encrypted_of_starttls :
    ∃ (entries : List Entry) (c : SmtpContext),
      Session tlsParams (connected false true false) entries c ∧ c.envelop.sender ≠ [] ∧
        c.ssl = true := by
  have hstart : Entry.Leads tlsParams ⟨connected false true false, openServices,
      .line (bytes "STARTTLS"), some (.code .code2172010)⟩
      { connected false true false with lastCmd := .starttls } := Entry.leads (by decide +kernel)
  have htls : Entry.Leads tlsParams ⟨{ connected false true false with lastCmd := .starttls },
      openServices, .handshake true, none⟩ { connected false true false with ssl := true } :=
    Entry.leads (by decide +kernel)
  have hmail : (said { connected false true false with ssl := true } "MAIL FROM:<a@b>").Leads
      tlsParams { sending .mail "a@b" [] with ssl := true } := Entry.leads (by decide +kernel)
  have hsession : Session tlsParams (connected false true false) _ _ :=
    .cons rfl hstart (.cons rfl htls (.cons rfl hmail (.nil _)))
  have hsender : (sending .mail "a@b" []).envelop.sender ≠ [] := by decide +kernel
  exact ⟨_, _, hsession, hsender, encrypted_of_session rfl rfl hsession (.inr (.inl hsender))⟩

/-! ### Limits -/

/-- A whole message has been queued. -/
def Entry.queues (e : Entry) : Bool :=
  match e.event with
  | .flushed .ok => e.context.flushing == some .wholeMail
  | _ => false

def Entry.flushes (e : Entry) : Bool :=
  match e.event with
  | .flushed _ => true
  | _ => false

/-- A login has failed, and `auth_times` counts it. -/
def Entry.guesses (p : Params) (e : Entry) : Bool :=
  match process p e.services e.context e.event with
  | some o => o.context.envelop.authTimes == e.context.envelop.authTimes + 1
  | none => false

lemma sessionNum_line (hmove : LineMove p cmdLine c c') :
    c'.sessionNum = c.sessionNum ∧ c'.flushing = c.flushing := by
  cases hmove <;> exact ⟨rfl, rfl⟩

/-- Within a message, or while one is queued, there is room for it. -/
structure Limited (p : Params) (c : SmtpContext) : Prop where
  le : c.sessionNum ≤ p.maxMailSessions
  data : c.lastCmd = .data → c.sessionNum < p.maxMailSessions
  flushing : c.flushing ≠ none → c.sessionNum < p.maxMailSessions

lemma Limited.line (h : Limited p c) (hcmd : c.lastCmd ≠ .data) (hflush : c.flushing = none)
    (hmove : LineMove p cmdLine c c') : Limited p c' := by
  obtain ⟨hnum, hflush'⟩ := sessionNum_line hmove
  refine ⟨hnum ▸ h.le, fun hdata => ?_, fun hbusy => absurd (hflush'.trans hflush) hbusy⟩
  cases hmove with
  | stay => exact absurd hdata hcmd
  | reset cmd hmem =>
    obtain rfl : cmd = .data := hdata
    exact absurd hmem (by decide)
  | authFailed => cases hdata
  | authContinued => cases hdata
  | loggedIn => cases hdata
  | sender => cases hdata
  | recipient => cases hdata
  | data _ _ hmax => exact lt_of_le_of_ne h.le hmax

lemma Limited.moves (h : Limited p c) (hmove : Moves p c c') : Limited p c' := by
  cases hmove with
  | line cmdLine _ hcmd hflush hline => exact h.line hcmd hflush hline
  | tls _ hflush => exact ⟨h.le, fun hdata => (by cases hdata), fun hbusy => absurd hflush hbusy⟩
  | message whole hcmd => exact ⟨h.le, fun _ => h.data hcmd, fun _ => h.data hcmd⟩
  | flushedWhole hflush =>
    have hlt := h.flushing (by simp [hflush])
    exact ⟨hlt, fun hdata => (by cases hdata), fun hbusy => absurd rfl hbusy⟩
  | flushedPart hflush =>
    exact ⟨h.le, h.data, fun hbusy => absurd rfl hbusy⟩
  | flushFailed => exact ⟨h.le, fun hdata => (by cases hdata), fun hbusy => absurd rfl hbusy⟩

lemma sessionNum_leads {e : Entry} (h : e.Leads p c') :
    c'.sessionNum = e.context.sessionNum + if e.queues then 1 else 0 := by
  obtain ⟨o, hp, hgo, -, rfl⟩ := h
  unfold Entry.queues
  cases hevent : e.event with
  | line l =>
    rw [hevent, process] at hp
    split_ifs at hp with hbusy hnil
    · cases hp
      rfl
    · cases hp
      exact (sessionNum_line (dispatchCmd_moves hgo)).1
  | handshake accepted =>
    rw [hevent] at hp
    obtain ⟨-, h⟩ := Option.ite_none_right_eq_some.mp hp
    obtain rfl := Option.some.inj h
    cases accepted <;> rfl
  | message whole tooLong passes =>
    rw [hevent] at hp
    obtain ⟨-, h⟩ := Option.ite_none_right_eq_some.mp hp
    obtain rfl := Option.some.inj h
    unfold tryFlushMail
    by_cases hlong : (tooLong && !whole) = true
    · rw [if_pos hlong]
      rfl
    · rw [if_neg hlong]
      cases passes <;> rfl
  | flushed result =>
    rw [hevent] at hp
    obtain ⟨action, hflush, rfl⟩ := Option.map_eq_some_iff.mp hp
    rw [hflush]
    cases result <;> cases action <;> rfl
  | lost =>
    rw [hevent] at hp
    cases hp
    rfl

/-- **A connection queues no more messages than it may**: `session_num` counts those that have
been queued, and stays within its bound. -/
theorem messages_bounded {onSslPort isOutbound isRelay : Bool}
    (h : Session p (connected onSslPort isOutbound isRelay) entries c) :
    entries.countP Entry.queues = c.sessionNum ∧ c.sessionNum ≤ p.maxMailSessions := by
  have hcount : c.sessionNum = entries.foldl (fun n e => n + if e.queues then 1 else 0) 0 := by
    refine Run.simulates (R := fun c n => c.sessionNum = n) (fun c n e c' hn hadm hstep => ?_) h rfl
    subst hadm
    rw [sessionNum_leads hstep, hn]
  have hfold : ∀ n, entries.foldl (fun n e => n + if e.queues then 1 else 0) n =
      n + entries.countP Entry.queues := by
    clear hcount h
    induction entries with
    | nil => intro n; rfl
    | cons e entries ih =>
      intro n
      rw [List.foldl_cons, ih, List.countP_cons]
      omega
  have hlimited := h.keeps (I := Limited p) (fun _ _ hI => hI.moves)
    ⟨Nat.zero_le _, fun hdata => (by cases onSslPort <;> cases hdata),
      fun hbusy => absurd rfl hbusy⟩
  refine ⟨?_, hlimited.le⟩
  rw [hcount, hfold, Nat.zero_add]

theorem messages_bounded_once :
    ∃ (entries : List Entry) (c : SmtpContext),
      Session openParams (connected false true false) entries c ∧
        entries.countP Entry.queues = 1 ∧ 1 ≤ openParams.maxMailSessions := by
  have hmail : (said (connected false true false) "MAIL FROM:<a@b>").Leads openParams
      (sending .mail "a@b" []) := leads_said (by decide +kernel)
  have hrcpt : (said (sending .mail "a@b" []) "RCPT TO:<c@d>").Leads openParams
      (sending .rcpt "a@b" ["c@d"]) := leads_said (by decide +kernel)
  have hdata : Entry.Leads openParams ⟨sending .rcpt "a@b" ["c@d"], openServices,
      .line (bytes "DATA"), some (.code .code2173003)⟩ (sending .data "a@b" ["c@d"]) :=
    Entry.leads (by decide +kernel)
  have hmessage : Entry.Leads openParams ⟨sending .data "a@b" ["c@d"], openServices,
      .message true false true, none⟩
      { sending .endMail "a@b" ["c@d"] with flushing := some .wholeMail } :=
    Entry.leads (by decide +kernel)
  have hflushed : Entry.Leads openParams
      ⟨{ sending .endMail "a@b" ["c@d"] with flushing := some .wholeMail }, openServices,
        .flushed .ok, some .composed⟩ { sending .none "" [] with sessionNum := 1 } :=
    Entry.leads (by decide +kernel)
  have hsession : Session openParams (connected false true false) _ _ :=
    .cons rfl hmail (.cons rfl hrcpt (.cons rfl hdata (.cons rfl hmessage
      (.cons rfl hflushed (.nil _)))))
  exact ⟨_, _, hsession, messages_bounded hsession⟩

/-- What a step makes of `auth_times` while nobody is logged in. -/
inductive Counted (p : Params) (c c' : SmtpContext) : Prop
  | same : c'.envelop.authTimes = c.envelop.authTimes → Counted p c c'
  | failed : c'.envelop.authTimes = c.envelop.authTimes + 1 →
      c'.envelop.authTimes < p.maxAuthTimes → Counted p c c'

lemma counted_line (hlogin : c'.envelop.isLogin = false) (hmove : LineMove p cmdLine c c') :
    c.envelop.isLogin = false ∧ Counted p c c' := by
  cases hmove with
  | stay => exact ⟨hlogin, .same rfl⟩
  | reset cmd =>
    have hlogin' : c.envelop.isLogin = false := hlogin
    exact ⟨hlogin', .same (by simp [SmtpContext.resetEnvelop, hlogin'])⟩
  | authFailed _ hlt => exact ⟨hlogin, .failed rfl hlt⟩
  | authContinued => exact ⟨hlogin, .same rfl⟩
  | loggedIn => cases hlogin
  | sender => exact ⟨hlogin, .same rfl⟩
  | recipient => exact ⟨hlogin, .same rfl⟩
  | data => exact ⟨hlogin, .same rfl⟩

lemma counted_leads {e : Entry} (h : e.Leads p c') (hlogin : c'.envelop.isLogin = false) :
    e.context.envelop.isLogin = false ∧
      (Counted p e.context c' ∨ e.flushes = true ∧ c'.envelop.authTimes = 0) := by
  obtain ⟨o, hp, hgo, -, rfl⟩ := h
  unfold Entry.flushes
  cases hevent : e.event with
  | line l =>
    rw [hevent, process] at hp
    split_ifs at hp with hbusy hnil
    · cases hp
      exact ⟨hlogin, .inl (.same rfl)⟩
    · cases hp
      have := counted_line hlogin (dispatchCmd_moves hgo)
      exact ⟨this.1, .inl this.2⟩
  | handshake accepted =>
    rw [hevent] at hp
    obtain ⟨-, h⟩ := Option.ite_none_right_eq_some.mp hp
    obtain rfl := Option.some.inj h
    cases accepted <;> exact ⟨hlogin, .inl (.same rfl)⟩
  | message whole tooLong passes =>
    rw [hevent] at hp
    obtain ⟨-, h⟩ := Option.ite_none_right_eq_some.mp hp
    obtain rfl := Option.some.inj h
    unfold tryFlushMail at hlogin ⊢
    by_cases hlong : (tooLong && !whole) = true
    · rw [if_pos hlong] at hlogin ⊢
      exact ⟨hlogin, .inl (.same rfl)⟩
    · rw [if_neg hlong] at hlogin ⊢
      cases passes <;> exact ⟨hlogin, .inl (.same rfl)⟩
  | flushed result =>
    rw [hevent] at hp
    obtain ⟨action, hflush, rfl⟩ := Option.map_eq_some_iff.mp hp
    cases result with
    | ok =>
      cases action with
      | wholeMail => exact ⟨hlogin, .inr ⟨rfl, rfl⟩⟩
      | partMail => exact ⟨hlogin, .inl (.same rfl)⟩
    | tempFail => exact ⟨hlogin, .inr ⟨rfl, rfl⟩⟩
    | permanentFail => exact ⟨hlogin, .inl (.same rfl)⟩
  | lost =>
    rw [hevent] at hp
    cases hp
    exact ⟨hlogin, .inl (.same rfl)⟩

/-- A step that is no guess leaves the count, or clears it. -/
lemma guesses_leads {e : Entry} (h : e.Leads p c') :
    e.guesses p = (c'.envelop.authTimes == e.context.envelop.authTimes + 1) := by
  obtain ⟨o, hp, -, -, rfl⟩ := h
  rw [Entry.guesses, hp]

/-- Guesses and flushes so far, against the count that the context has. -/
def Guessed (p : Params) (c : SmtpContext) (n : ℕ × ℕ) : Prop :=
  c.envelop.isLogin = false →
    n.1 ≤ (p.maxAuthTimes - 1) * n.2 + c.envelop.authTimes ∧
      c.envelop.authTimes ≤ p.maxAuthTimes - 1

lemma Guessed.leads {e : Entry} {n : ℕ × ℕ} (h : Guessed p e.context n) (hstep : e.Leads p c') :
    Guessed p c' (n.1 + if e.guesses p then 1 else 0, n.2 + if e.flushes then 1 else 0) := by
  intro hlogin
  obtain ⟨hbefore, hcount⟩ := counted_leads hstep hlogin
  obtain ⟨hle, hmax⟩ := h hbefore
  have hmono : (p.maxAuthTimes - 1) * n.2 ≤
      (p.maxAuthTimes - 1) * (n.2 + if e.flushes then 1 else 0) :=
    Nat.mul_le_mul_left _ (Nat.le_add_right _ _)
  have hguess := guesses_leads hstep
  rcases hcount with (hsame | ⟨hsucc, hlt⟩) | ⟨hflush, hzero⟩
  · have : e.guesses p = false := by simp [hguess, hsame]
    rw [this, if_neg (by decide), hsame]
    dsimp only
    exact ⟨by omega, hmax⟩
  · have : e.guesses p = true := by simp [hguess, hsucc]
    rw [this, if_pos rfl, hsucc]
    dsimp only
    exact ⟨by omega, by omega⟩
  · have : e.guesses p = false := by simp [hguess, hzero]
    rw [this, if_neg (by decide), hzero, hflush, if_pos rfl, Nat.mul_add, Nat.mul_one]
    exact ⟨by omega, Nat.zero_le _⟩

/-- The recipient list of an inbound server is empty wherever a sender may be taken. -/
structure Cleared (c : SmtpContext) : Prop where
  rcptTo : c.flushing = none → c.mayBegin = true → c.envelop.rcptTo = []
  auth : c.lastCmd ≠ .authProcess
  part : c.flushing = some .partMail → c.lastCmd = .data

lemma Cleared.line (hmode : p.runningMode = .inbound) (h : Cleared c) (hflush : c.flushing = none)
    (hmove : LineMove p cmdLine c c') : Cleared c' := by
  have hclosed : ¬ c.AuthOpen p := by
    rintro (⟨-, hne⟩ | hcmd)
    · exact hne hmode
    · exact h.auth hcmd
  have hpart : ¬ c.flushing = some .partMail := by simp [hflush]
  cases hmove with
  | stay => exact h
  | reset cmd hcmd =>
    refine ⟨fun _ _ => rfl, ?_, fun hf => absurd hf hpart⟩
    rintro rfl
    exact absurd hcmd (by decide)
  | authFailed hopen => exact absurd hopen hclosed
  | authContinued hopen => exact absurd hopen hclosed
  | loggedIn hopen => exact absurd hopen hclosed
  | sender out _ hbegin =>
    exact ⟨fun _ _ => h.rcptTo hflush (hbegin hmode), by rintro ⟨⟩, fun hf => absurd hf hpart⟩
  | recipient =>
    exact ⟨fun _ hbegin => absurd hbegin (by simp [SmtpContext.mayBegin, takeRecipient,
      SmtpContext.answer]), by simp [takeRecipient, SmtpContext.answer], fun hf => absurd hf hpart⟩
  | data =>
    exact ⟨fun _ hbegin => absurd hbegin (by simp [SmtpContext.mayBegin]), by simp,
      fun hf => absurd hf hpart⟩

lemma Cleared.moves (hmode : p.runningMode = .inbound) (h : Cleared c) (hmove : Moves p c c') :
    Cleared c' := by
  cases hmove with
  | line cmdLine _ _ hflush hline => exact h.line hmode hflush hline
  | tls hcmd hflush =>
    refine ⟨fun _ _ => h.rcptTo hflush ?_, nofun, fun hf => ?_⟩
    · simp [SmtpContext.mayBegin, hcmd]
    · exact absurd (hflush.symm.trans hf) (by simp)
  | message whole hcmd =>
    cases whole with
    | false => exact ⟨nofun, nofun, fun _ => rfl⟩
    | true => exact ⟨nofun, nofun, nofun⟩
  | flushedWhole => exact ⟨fun _ _ => rfl, nofun, nofun⟩
  | flushedPart hflush =>
    have hdata := h.part hflush
    refine ⟨fun _ hbegin => ?_, h.auth, nofun⟩
    exact absurd hbegin (by simp [SmtpContext.mayBegin, hdata])
  | flushFailed => exact ⟨fun _ _ => rfl, nofun, nofun⟩

/-- No transaction has begun with recipients left. -/
def Record.Fresh (r : Record) : Prop := ∀ t, r.transaction = some t → t.left = []

lemma fresh_next {r : Record} {e : Entry} (hmode : p.runningMode = .inbound) (h : r.Fresh)
    (hcleared : Cleared e.context) (hstep : e.Leads p c') : (r.next e).Fresh := by
  have hcleared' : Cleared c' := by
    obtain ⟨o, hp, hgo, -, rfl⟩ := hstep
    exact hcleared.moves hmode (process_moves hp hgo)
  rcases hstep.cases r with ⟨cmdLine, o, htaken, hevent, rfl, hreply⟩ | ⟨-, hnext⟩
  · cases htaken with
    | sender out hcmd hright =>
      have hnext : r.next e = r.takeSender e cmdLine := by
        simp [Record.next, hevent, hreply, hcmd]
      have hflush : e.context.flushing = none := by
        obtain ⟨o, hp, -⟩ := hstep
        rw [hevent, process] at hp
        split_ifs at hp with hbusy <;> exact not_not.mp fun hf => hbusy (.inr hf)
      rw [hnext]
      intro t ht
      obtain rfl := Option.some.inj ht
      exact hcleared'.rcptTo hflush rfl
    | recipient hcmd hin hdomain =>
      have hnext : r.next e = r.takeRecipient e cmdLine := by
        simp [Record.next, hevent, hreply, hcmd]
      rw [hnext]
      intro t ht
      obtain ⟨t', ht', rfl⟩ := Option.map_eq_some_iff.mp ht
      exact h t' ht'
  · rwa [hnext]

/-- **A server for mail from elsewhere sends each message to its own recipients**: whenever it
accepts `DATA`, the envelope is that of the last transaction. -/
theorem inbound_delivers {onSslPort isOutbound isRelay : Bool} {s : SystemServices} {o : Outcome}
    (hmode : p.runningMode = .inbound)
    (h : Session p (connected onSslPort isOutbound isRelay) entries c)
    (hdata : process p s c (.line cmdLine) = some o) (hcmd : command cmdLine = .data)
    (haccepted : o.reply = some (.code .code2173003)) :
    Delivers p (record entries) o.context.envelop := by
  have hstart : Cleared (connected onSslPort isOutbound isRelay) := by
    refine ⟨fun _ _ => rfl, ?_, nofun⟩
    cases onSslPort <;> simp [connected]
  have hfresh : Cleared c ∧ (record entries).Fresh := by
    refine Run.simulates (R := fun c (r : Record) => Cleared c ∧ r.Fresh)
      (fun c r e c' hr hadm hstep => ?_) h ⟨hstart, fun t ht => by cases ht⟩
    subst hadm
    refine ⟨?_, fresh_next hmode hr.2 hr.1 hstep⟩
    obtain ⟨o, hp, hgo, -, rfl⟩ := hstep
    exact hr.1.moves hmode (process_moves hp hgo)
  have htracks := h.tracks
  obtain ⟨hlast, henvelop⟩ := envelop_of_data hdata hcmd haccepted
  obtain ⟨t, ht, hsender, hlist⟩ := htracks.within (.inr hlast)
  rw [henvelop]
  refine ⟨⟨t, ht, hsender, ?_⟩, fun hneed hvalid hlogin hrelay => ?_⟩
  · rw [hlist, hfresh.2 t ht, List.nil_append]
  · exact htracks.checked ⟨hneed, hvalid, hlogin, hrelay⟩

/-- A server for mail from elsewhere. -/
def inboundParams : Params := { openParams with runningMode := .inbound, domainlistValid := false }

/-- Its context within a transaction. -/
def receiving (lastCmd : LastCmd) (sender : String) (rcptTo : List String) : SmtpContext :=
  ⟨false, false, lastCmd, 0, none, ⟨0, bytes sender, rcptTo.map bytes, false, false, false⟩⟩

theorem inbound_delivers_once :
    ∃ (entries : List Entry) (c : SmtpContext) (o : Outcome),
      Session inboundParams (connected false false false) entries c ∧
      process inboundParams openServices c (.line (bytes "DATA")) = some o ∧
      o.reply = some (.code .code2173003) ∧
      Delivers inboundParams (record entries) o.context.envelop := by
  have hmail : (said (connected false false false) "MAIL FROM:<a@b>").Leads inboundParams
      (receiving .mail "a@b" []) := Entry.leads (by decide +kernel)
  have hrcpt : (said (receiving .mail "a@b" []) "RCPT TO:<c@d>").Leads inboundParams
      (receiving .rcpt "a@b" ["c@d"]) := Entry.leads (by decide +kernel)
  have hdata : process inboundParams openServices (receiving .rcpt "a@b" ["c@d"])
      (.line (bytes "DATA")) =
        some ⟨receiving .data "a@b" ["c@d"], some (.code .code2173003), .goOn⟩ := by decide +kernel
  have hsession : Session inboundParams (connected false false false) _ _ :=
    .cons rfl hmail (.cons rfl hrcpt (.nil _))
  exact ⟨_, _, _, hsession, hdata, rfl,
    inbound_delivers rfl hsession hdata (by decide +kernel) rfl⟩

end SteepSystem.Smtp
