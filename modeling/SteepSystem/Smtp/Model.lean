import Mathlib.Data.List.DropRight
import SteepSystem.Lib.CStrings

/-!
One connection of the SMTP server: the commands of `smtp_cmd_handler.c` with their dispatch, and
what `smtp_parser_process` does around them. A reply is known by its code; the texts, the names
that a client gives itself and the contents of the messages are left out.
-/

namespace SteepSystem.Smtp

open SteepSystem.Lib.CStrings

/-! ### Addresses -/

/-- `EMAIL_ADDR` without its display name. -/
structure EmailAddr where
  localPart : List UInt8
  domain : List UInt8
  deriving DecidableEq

/-- What `"%s@%s"` makes of it. -/
def EmailAddr.text (a : EmailAddr) : List UInt8 := a.localPart ++ 64 :: a.domain

def isblank (c : UInt8) : Bool := c == 32 || c == 9

def ltrimString (s : List UInt8) : List UInt8 := s.dropWhile isblank

def rtrimString (s : List UInt8) : List UInt8 := s.rdropWhile isblank

/-- Where the byte first stands from `tmp` on. -/
def findToken (c : UInt8) (email : List UInt8) (tmp : ℕ) : Option ℕ :=
  ((email.drop tmp).findIdx? (· == c)).map (tmp + ·)

/-- Past the display name: `lasttokenloc`, and where `tmp_ptr` stands. -/
def skipDisplayName (email : List UInt8) : ℤ × ℕ :=
  match email.findIdx? fun c => c == 34 || c == 60 with
  | none => (-1, 0)
  | some first =>
    if email[first]? = some 60 then (if first + 1 > 256 then (-1, 0) else (-1, first))
    else match findToken 34 email (first + 1) with
      | none => (first, first)
      | some second => if second - first > 256 then (first, first) else (first, second)

/-- `parse_email_addr`. A domain of 64 bytes is kept, though its end is written behind the array. -/
def parseEmailAddr (email : List UInt8) : EmailAddr :=
  let (quote, start) := skipDisplayName email
  let angle := findToken 60 email start
  let tmp := angle.getD start
  -- Without `<` the local part begins behind the first byte once a quotation mark was met.
  let lasttokenloc : ℤ := if angle = none ∧ quote = -1 then -1 else angle.getD 0
  match findToken 64 email tmp with
  | none =>
    let domain := (email.drop tmp).takeWhile (· != 62)
    ⟨[], rtrimString (ltrimString (if domain.length > 64 then [] else domain))⟩
  | some tokenloc =>
    let long := tokenloc - lasttokenloc > 64
    let name := (email.take tokenloc).drop (lasttokenloc + 1).toNat
    let domain := (email.drop ((if long then tmp else tokenloc) + 1)).takeWhile (· != 62)
    ⟨if long then [] else rtrimString (ltrimString name),
      rtrimString (ltrimString (if domain.length > 64 then [] else domain))⟩

/-! ### The context of a connection -/

/-- `last_cmd`. -/
inductive LastCmd
  | unknown | none | helo | ehlo | starttls | authProcess | logged | mail | rcpt | quit | rset
  | help | vrfy | etrn | data | endMail
  deriving DecidableEq

inductive RunningMode
  | inbound | outbound | mixture
  deriving DecidableEq

/-- What `smtp_parser_get_param` returns, and `g_domainlist_valid`. -/
structure Params where
  runningMode : RunningMode
  needAuth : Bool
  supportStarttls : Bool
  forceStarttls : Bool
  domainlistValid : Bool
  maxAuthTimes : ℕ
  maxMailSessions : ℕ

/-- `smtp_parser_domainlist_valid`. -/
def Params.smtpParserDomainlistValid (p : Params) : Bool :=
  if p.runningMode = .outbound then true else p.domainlistValid

/-- `rcptTo` are the lines of `f_rcpt_to`. -/
structure Envelop where
  authTimes : ℕ
  sender : List UInt8
  rcptTo : List (List UInt8)
  isLogin : Bool
  isOutbound : Bool
  isRelay : Bool
  deriving DecidableEq

inductive FlushAction
  | partMail | wholeMail
  deriving DecidableEq

/-- `SMTP_CONTEXT`: `onSslPort` says that the connection came in on `g_ssl_port`, `ssl` that there
is one, and `flushing` what the flusher has been given. -/
structure SmtpContext where
  onSslPort : Bool
  ssl : Bool
  lastCmd : LastCmd
  sessionNum : ℕ
  flushing : Option FlushAction
  envelop : Envelop
  deriving DecidableEq

/-- The codes of `resource.h`, by their numbers. -/
inductive SmtpCode
  | code2172005 | code2172010 | code2173003 | code2174014 | code2174016 | code2172002 | code2175002
  | code2175005 | code2175006 | code2175007 | code2175009 | code2175013 | code2175016 | code2175017
  | code2175020 | code2175021 | code2175028 | code2175029 | code2175032 | code2175035 | code2175036
  | code2172001 | code2172009
  deriving DecidableEq

/-- What is written back: a text of `resource.c`, or one that is composed. -/
inductive Reply
  | code (c : SmtpCode)
  | composed
  deriving DecidableEq

inductive Dispatch
  | goOn | shouldClose | break
  deriving DecidableEq

structure Outcome where
  context : SmtpContext
  reply : Option Reply
  dispatch : Dispatch
  deriving DecidableEq

namespace SmtpContext

/-- The reply is written, and nothing is changed. -/
def answer (c : SmtpContext) (r : SmtpCode) : Outcome := ⟨c, some (.code r), .goOn⟩

/-- The reply is written before the connection is closed. -/
def refuse (c : SmtpContext) (r : SmtpCode) : Outcome := ⟨c, some (.code r), .shouldClose⟩

/-- `smtp_parser_reset_context_envelop`. -/
def resetEnvelop (c : SmtpContext) : SmtpContext :=
  { c with envelop := { c.envelop with
      authTimes := if c.envelop.isLogin then 0 else c.envelop.authTimes
      sender := []
      rcptTo := [] } }

/-- `smtp_parser_reset_context_session`. -/
def resetSession (c : SmtpContext) : SmtpContext :=
  { c with lastCmd := .none, flushing := none,
           envelop := { c.envelop with authTimes := 0, sender := [], rcptTo := [] } }

def failAuth (c : SmtpContext) : SmtpContext :=
  { c with envelop := { c.envelop with authTimes := c.envelop.authTimes + 1 } }

/-- TLS is asked for, and the connection has none. -/
def mustStarttls (c : SmtpContext) (p : Params) : Bool :=
  p.supportStarttls && p.forceStarttls && !c.ssl

end SmtpContext

/-! ### The services -/

inductive AuthResult
  | error | continue | finish

inductive JudgeResult
  | accept | reject | retrying

/-- What stands in the stream behind a `DATA` line, if there is memory to copy it. -/
inductive Behind
  | nothing | copied | outOfMemory

/-- What the services answer while one line is processed; those that need not be there are options.
A user who passes the check is given the path of a mailbox. -/
structure SystemServices where
  checkDomain : List UInt8 → Bool
  checkUser : Option (List UInt8 → Option (List UInt8))
  checkFull : Option (List UInt8 → Bool)
  hasAuth : Bool
  authProcess : List UInt8 → AuthResult
  authRetrieve : Bool
  judgeUser : Bool
  passJudges : JudgeResult
  hasVrfy : Bool
  hasEtrn : Bool
  behind : Behind

/-! ### The commands -/

/-- `smtp_cmd_handler_check_onlycmd`. -/
def checkOnlycmd (cmdLine : List UInt8) : Bool := (cmdLine.drop 4).all (· == 32)

section Commands

variable (p : Params) (s : SystemServices) (cmdLine : List UInt8) (c : SmtpContext)

def cmdHelo : Outcome :=
  if 5 ≤ cmdLine.length ∧ cmdLine.length ≤ 260 ∧ cmdLine[4]? ≠ some 32 then c.answer .code2175006
  else if 260 < cmdLine.length then c.answer .code2175002
  else { c.resetEnvelop with lastCmd := .helo }.answer .code2172005

def cmdEhlo : Outcome :=
  if 5 ≤ cmdLine.length ∧ cmdLine.length ≤ 260 ∧ cmdLine[4]? ≠ some 32 then c.answer .code2175006
  else if 260 < cmdLine.length then c.answer .code2172002
  else ⟨{ c.resetEnvelop with lastCmd := .ehlo }, some .composed, .goOn⟩

def cmdStarttls : Outcome :=
  if c.ssl then c.answer .code2175006
  else if p.supportStarttls = false then c.answer .code2175006
  else { c.resetEnvelop with lastCmd := .starttls }.answer .code2172010

/-- `smtp_cmd_handler_auth_service_interact`. -/
def authServiceInteract : Outcome :=
  match s.authProcess cmdLine with
  | .error =>
    if s.authRetrieve && !s.judgeUser then c.refuse .code2175035
    else if p.maxAuthTimes ≤ c.failAuth.envelop.authTimes then c.failAuth.refuse .code2175028
    else ⟨{ c.failAuth with lastCmd := .none }, some .composed, .goOn⟩
  | .continue => ⟨{ c with lastCmd := .authProcess }, some .composed, .goOn⟩
  | .finish =>
    if s.judgeUser = false then c.refuse .code2175035
    else ⟨{ c with lastCmd := .logged, envelop := { c.envelop with isLogin := true } },
      some .composed, .goOn⟩

def cmdAuth : Outcome :=
  if c.mustStarttls p then c.answer .code2175020
  else if p.runningMode = .inbound ∨ s.hasAuth = false then c.answer .code2175006
  else if cmdLine[4]? ≠ some 32 then c.answer .code2175006
  else if c.envelop.isLogin = true ∧ c.sessionNum = 0 then c.answer .code2175007
  else authServiceInteract p s cmdLine c

/-- The address of a `MAIL` line; that of an empty one is `none@none`. -/
def mailAddr : EmailAddr :=
  let buff := ltrimString (cstr (cmdLine.drop 10))
  parseEmailAddr (if buff.take 2 = bytes "<>" then bytes "<none@none>" else buff)

/-- The address of a `RCPT` line. -/
def rcptAddr : EmailAddr := parseEmailAddr (cstr (cmdLine.drop 8))

/-- A sender is taken. -/
def takeSender (isOutbound : Bool) : Outcome :=
  { c with lastCmd := .mail,
           envelop := { c.envelop with isOutbound, sender := (mailAddr cmdLine).text } }.answer
    .code2172005

/-- Where `MAIL` is no bad sequence for a sender from elsewhere. -/
def SmtpContext.mayBegin : Bool :=
  c.lastCmd ∈ [.none, .helo, .ehlo, .starttls, .rset, .mail, .endMail]

def takeOutsideSender : Outcome :=
  if c.mayBegin then takeSender cmdLine c false else c.answer .code2175007

/-- A sender who may send out: one who needs no login, or has it. -/
def takeLocalSender : Outcome :=
  if p.needAuth then
    if c.envelop.isRelay || c.envelop.isLogin then takeSender cmdLine c true
    else c.answer .code2175013
  else takeSender cmdLine c true

def cmdMail : Outcome :=
  if cmdLine.length ≤ 10 ∨ casePrefix (bytes " FROM:") (cmdLine.drop 4) = false then
    c.answer .code2175005
  else if c.mustStarttls p then c.answer .code2175020
  else if (mailAddr cmdLine).localPart = [] ∨ (mailAddr cmdLine).domain = [] then
    c.answer .code2175016
  else match p.runningMode with
    | .inbound => takeOutsideSender cmdLine c
    | .outbound => takeLocalSender p cmdLine c
    | .mixture =>
      if s.checkDomain (mailAddr cmdLine).domain = false then takeOutsideSender cmdLine c
      else takeLocalSender p cmdLine c

/-- A recipient is written down. -/
def takeRecipient : Outcome :=
  { c with lastCmd := .rcpt, envelop := { c.envelop with
      rcptTo := c.envelop.rcptTo ++ [(rcptAddr cmdLine).text] } }.answer .code2172005

/-- A recipient who has a mailbox, as far as the services know, that is not full. -/
def checkRecipient : Outcome :=
  if c.envelop.isOutbound = false ∧ c.envelop.isRelay = false then
    match s.checkUser with
    | none => takeRecipient cmdLine c
    | some checkUser =>
      match checkUser (rcptAddr cmdLine).text with
      | none => c.answer .code2175016
      | some path =>
        match s.checkFull with
        | none => takeRecipient cmdLine c
        | some checkFull =>
          if path ≠ [] ∧ checkFull path = false then c.answer .code2175017
          else takeRecipient cmdLine c
  else takeRecipient cmdLine c

def cmdRcpt : Outcome :=
  if cmdLine.length ≤ 8 ∨ casePrefix (bytes " TO:") (cmdLine.drop 4) = false then
    c.answer .code2175005
  else if c.mustStarttls p then c.answer .code2175020
  else if (rcptAddr cmdLine).localPart = [] ∨ (rcptAddr cmdLine).domain = [] then
    c.answer .code2175016
  else if c.lastCmd = .mail ∨ c.lastCmd = .rcpt then
    if c.envelop.isOutbound = false ∧ c.envelop.isRelay = false ∧
        p.smtpParserDomainlistValid = true ∧ s.checkDomain (rcptAddr cmdLine).domain = false then
      c.refuse .code2175032
    else checkRecipient s cmdLine c
  else c.answer .code2175007

def cmdData : Outcome :=
  if c.lastCmd ≠ .rcpt then c.answer .code2175009
  else if checkOnlycmd cmdLine = false then c.answer .code2175005
  else if c.mustStarttls p then c.answer .code2175020
  else match s.passJudges with
    | .reject => ⟨c, some .composed, .shouldClose⟩
    | .retrying => ⟨c, some .composed, .shouldClose⟩
    | .accept =>
      match s.behind with
      | .nothing => { c with lastCmd := .data }.answer .code2173003
      | .copied => ⟨{ c with lastCmd := .data }, some (.code .code2173003), .break⟩
      | .outOfMemory => { c with lastCmd := .data }.refuse .code2174016

def cmdQuit : Outcome :=
  if checkOnlycmd cmdLine = false then c.answer .code2175005 else ⟨c, some .composed, .shouldClose⟩

def cmdRset : Outcome :=
  if checkOnlycmd cmdLine = false then c.answer .code2175005
  else { c with lastCmd := .rset }.resetEnvelop.answer .code2172005

def cmdNoop : Outcome :=
  if checkOnlycmd cmdLine = false then c.answer .code2175005 else c.answer .code2172005

def cmdHelp : Outcome :=
  if checkOnlycmd cmdLine = false then c.answer .code2175005
  else if c.mustStarttls p then c.answer .code2175020
  else c.answer .code2172001

def cmdVrfy : Outcome :=
  if checkOnlycmd cmdLine = false then c.answer .code2175005
  else if c.mustStarttls p then c.answer .code2175020
  else if s.hasVrfy then ⟨c, some .composed, .goOn⟩
  else c.answer .code2172009

def cmdEtrn : Outcome :=
  if s.hasEtrn = false then c.answer .code2175006
  else if cmdLine[4]? ≠ some 32 then c.answer .code2175006
  else if c.mustStarttls p then c.answer .code2175020
  else ⟨c, some .composed, .goOn⟩

def cmdElse : Outcome :=
  if c.lastCmd = .authProcess then authServiceInteract p s cmdLine c else c.answer .code2175006

/-- The commands by the words they begin with. -/
inductive Command
  | helo | ehlo | starttls | auth | mail | rcpt | data | rset | noop | help | vrfy | quit | etrn
  | else
  deriving DecidableEq

def command : Command :=
  if casePrefix (bytes "HELO") cmdLine then .helo
  else if casePrefix (bytes "EHLO") cmdLine then .ehlo
  else if casePrefix (bytes "STARTTLS") cmdLine then .starttls
  else if casePrefix (bytes "AUTH") cmdLine then .auth
  else if casePrefix (bytes "MAIL") cmdLine then .mail
  else if casePrefix (bytes "RCPT") cmdLine then .rcpt
  else if casePrefix (bytes "DATA") cmdLine then .data
  else if casePrefix (bytes "RSET") cmdLine then .rset
  else if casePrefix (bytes "NOOP") cmdLine then .noop
  else if casePrefix (bytes "HELP") cmdLine then .help
  else if casePrefix (bytes "VRFY") cmdLine then .vrfy
  else if casePrefix (bytes "QUIT") cmdLine then .quit
  else if casePrefix (bytes "ETRN") cmdLine then .etrn
  else .else

/-- `smtp_parser_dispatch_cmd`. -/
def dispatchCmd : Outcome :=
  if 1000 < cmdLine.length then c.answer .code2175002
  else if c.sessionNum = p.maxMailSessions ∧
      (cmdLine.length ≠ 4 ∨ casePrefix (bytes "QUIT") cmdLine = false) then c.refuse .code2175029
  else match command cmdLine with
    | .helo => cmdHelo cmdLine c
    | .ehlo => cmdEhlo cmdLine c
    | .starttls => cmdStarttls p c
    | .auth => cmdAuth p s cmdLine c
    | .mail => cmdMail p s cmdLine c
    | .rcpt => cmdRcpt p s cmdLine c
    | .data => cmdData p s cmdLine c
    | .rset => cmdRset cmdLine c
    | .noop => cmdNoop cmdLine c
    | .help => cmdHelp p cmdLine c
    | .vrfy => cmdVrfy p s cmdLine c
    | .quit => cmdQuit cmdLine c
    | .etrn => cmdEtrn p s cmdLine c
    | .else => cmdElse p s cmdLine c

end Commands

/-! ### The connection -/

inductive FlushResult
  | ok | tempFail | permanentFail

/-- What happens to a context: `message` is the end of a message or of a part that is flushed,
with what the tests on it say, and `lost` a connection that is lost or has timed out. -/
inductive Event
  | line (l : List UInt8)
  | handshake (accepted : Bool)
  | message (whole tooLong passes : Bool)
  | flushed (r : FlushResult)
  | lost

def acceptTls (c : SmtpContext) (accepted : Bool) : Outcome :=
  if accepted then
    ⟨{ c with ssl := true, lastCmd := .none }, if c.onSslPort then some .composed else none, .goOn⟩
  else ⟨c, none, .shouldClose⟩

/-- `smtp_parser_try_flush_mail`. -/
def tryFlushMail (c : SmtpContext) (whole tooLong passes : Bool) : Outcome :=
  if tooLong && !whole then c.refuse .code2175021
  else if passes then
    ⟨{ c with flushing := some (if whole then .wholeMail else .partMail) }, none, .goOn⟩
  else ⟨c, some .composed, .shouldClose⟩

/-- What comes of a flush. -/
def afterFlush (c : SmtpContext) (action : FlushAction) : FlushResult → Outcome
  | .ok =>
    match action with
    | .wholeMail => ⟨{ c with sessionNum := c.sessionNum + 1 }.resetSession, some .composed, .goOn⟩
    | .partMail => ⟨{ c with flushing := none }, none, .goOn⟩
  | .tempFail => c.resetSession.answer .code2174014
  | .permanentFail => c.refuse .code2175036

/-- `smtp_parser_process`: nothing where the event cannot happen. No line is read within a message,
nor while the flusher is at work; the lines that came with `STARTTLS` are read before the
handshake. -/
def process (p : Params) (s : SystemServices) (c : SmtpContext) : Event → Option Outcome
  | .line l =>
    if c.lastCmd = .data ∨ c.flushing ≠ none then none
    else if l = [] then some ⟨c, none, .goOn⟩
    else some (dispatchCmd p s l c)
  | .handshake accepted =>
    if c.lastCmd = .starttls ∧ c.flushing = none then some (acceptTls c accepted) else none
  | .message whole tooLong passes =>
    if c.lastCmd = .data ∧ c.flushing = none then
      some (tryFlushMail { c with lastCmd := if whole then .endMail else .data } whole tooLong
        passes)
    else none
  | .flushed r => c.flushing.map fun action => afterFlush c action r
  | .lost => some ⟨c, none, .shouldClose⟩

/-- A context as the listener hands it over. Who has used it before may have left `is_outbound`. -/
def connected (onSslPort isOutbound isRelay : Bool) : SmtpContext :=
  ⟨onSslPort, false, if onSslPort then .starttls else .none, 0, none,
    ⟨0, [], [], false, isOutbound, isRelay⟩⟩

end SteepSystem.Smtp
