import SteepSystem.Smtp.Model

/-!
One connection of the POP3 server: the commands of `pop3_cmd_handler.c` with their dispatch, and
what `pop3_parser_process` does around them. The texts of `resource.c` are known by their codes, and
of a message that is retrieved only the path is known.
-/

namespace SteepSystem.Pop3

open SteepSystem.Lib.CStrings
open SteepSystem.Smtp (ltrimString rtrimString)

abbrev Bytes := List UInt8

/-- `MSG_UNIT` -/
structure MsgUnit where
  fileName : Bytes
  size : ℕ
  bDeleted : Bool
  deriving DecidableEq

structure Params where
  maxAuthTimes : ℕ
  blockAuthFail : ℕ
  supportStls : Bool
  forceStls : Bool
  cdnPath : Bytes

/-- `POP3_CONTEXT`: `list` has the places in `array` of the units that are linked in it. -/
structure Pop3Context where
  onSslPort : Bool
  ssl : Bool
  isStls : Bool
  isLogin : Bool
  isCdn : Bool
  authTimes : ℕ
  username : Bytes
  maildir : Bytes
  array : List MsgUnit
  list : List ℕ
  totalMail : ℤ
  totalSize : ℕ
  curLine : ℤ
  untilLine : ℤ
  deriving DecidableEq

/-- The codes of `resource.h`, by their numbers. -/
inductive Pop3Code
  | code2170000 | code2170002 | code2170003 | code2170004 | code2170005 | code2170006 | code2170007
  | code2170008 | code2170009 | code2170010 | code2170011 | code2170014 | code2170015 | code2170016
  | code2170017 | code2170019 | code2170020 | code2170021 | code2170022 | code2170024 | code2170025
  | code2170026
  deriving DecidableEq

/-- What is written back: a text of `resource.c`, two with something between, or another text. -/
inductive Reply
  | code (c : Pop3Code)
  | around (c : Pop3Code) (text : Bytes)
  | text (text : Bytes)
  deriving DecidableEq

/-- What is seen from outside: the replies, and what the services and the files are asked for. -/
inductive Output
  | reply (r : Reply)
  | listing (text : Bytes)
  | retrieve (path : Bytes)
  | addUserIntoTempList (username : Bytes) (interval : ℕ)
  | createCdnUser (username : Bytes)
  | deleteCdnMail (username : Bytes) (fileNames : List Bytes)
  | deleteMail (maildir : Bytes) (fileNames : List Bytes)
  | broadcastEvent (event : Bytes)
  | remove (path : Bytes)
  deriving DecidableEq

inductive Dispatch
  | goOn | shouldClose | data | list
  deriving DecidableEq

structure Outcome where
  context : Pop3Context
  outputs : List Output
  dispatch : Dispatch

namespace Pop3Context

/-- The reply is written, and nothing is changed. -/
def answer (c : Pop3Context) (r : Pop3Code) : Outcome := ⟨c, [.reply (.code r)], .goOn⟩

/-- The reply is written before the connection is closed. -/
def refuse (c : Pop3Context) (r : Pop3Code) : Outcome := ⟨c, [.reply (.code r)], .shouldClose⟩

/-- `snprintf` into a path of 255 bytes. -/
def path (dir folder fileName : Bytes) : Bytes := (dir ++ folder ++ fileName).take 254

/-- Where the file of a message is. -/
def filePath (p : Params) (c : Pop3Context) (fileName : Bytes) : Bytes :=
  if c.isCdn then path (p.cdnPath ++ bytes "/" ++ c.username) (bytes "/inbox/") fileName
  else path c.maildir (bytes "/eml/") fileName

/-- The names in the list of the deleted messages. -/
def listed (c : Pop3Context) : List Bytes := c.list.filterMap fun i => c.array[i]?.map (·.fileName)

end Pop3Context

/-! ### The services -/

/-- `0` and the messages, with their number and size; or one of the errors, which leave none. -/
inductive ListResult
  | ok (units : List (Bytes × ℕ)) (number : ℤ) (size : ℕ)
  | noServer | rdwrError | resultError

inductive DeleteResult
  | ok | noServer | rdwrError | resultError

/-- The services of a CDN, where they are installed; `none` where the list fails. -/
structure CdnServices where
  checkUser : Bytes → Bool
  authUser : Bytes → Bytes → Bool
  listMail : Option (List (Bytes × ℕ))

/-- What the services and the files answer while one line is processed. `authLogin` gives a reason
where it refuses, and has the path of a mailbox as it leaves it in either case. -/
structure SystemServices where
  judgeUser : Bytes → Bool
  cdn : Option CdnServices
  authLogin : Bytes → Bytes → Bytes → Except Bytes Unit × Bytes
  listMail : ListResult
  deleteMail : DeleteResult
  deleteCdnMail : Bool
  opens : Bool
  retrieves : Bool
  hostId : Bytes

def unitsOf (units : List (Bytes × ℕ)) : List MsgUnit := units.map fun u => ⟨u.1, u.2, false⟩

/-! ### The commands -/

section Commands

variable (p : Params) (s : SystemServices) (cmdLine : Bytes) (c : Pop3Context)

def capabilities : Bytes :=
  bytes "+OK capability list follows\r\nSTLS\r\nTOP\r\nUSER\r\nPIPELINING\r\nUIDL\r\nTOP\r\n" ++
    bytes "IMPLEMENTATION apollo-pop3-svr\r\n.\r\n"

def cmdCapa : Outcome := ⟨c, [.reply (.text capabilities)], .goOn⟩

def cmdStls : Outcome :=
  if c.ssl then c.answer .code2170003
  else if p.supportStls = false then c.answer .code2170003
  else if c.isLogin then c.answer .code2170025
  else { c with isStls := true }.answer .code2170024

def cmdUser : Outcome :=
  if p.supportStls ∧ p.forceStls ∧ c.ssl = false then c.answer .code2170026
  else if cmdLine.length ≤ 5 ∨ 260 < cmdLine.length then c.answer .code2170004
  else if cmdLine[4]? ≠ some 32 then c.answer .code2170003
  else if c.isLogin then c.answer .code2170020
  else
    let c := { c with username := ltrimString (cmdLine.drop 5) }
    if s.judgeUser c.username = false then
      ⟨c, [.reply (.around .code2170017 c.username)], .shouldClose⟩
    else c.answer .code2170000

/-- The messages are known, and the user is let in. -/
def Pop3Context.login (c : Pop3Context) (array : List MsgUnit) (totalMail : ℤ) (totalSize : ℕ) :
    Pop3Context :=
  { c with array, totalMail, totalSize, isLogin := true }

/-- The way past the CDN. -/
def normalLogin (password : Bytes) (c : Pop3Context) (bCdnCreate : Bool) : Outcome :=
  match s.authLogin c.username password c.maildir with
  | (.error reason, maildir) =>
    let c := { c with maildir, authTimes := c.authTimes + 1 }
    if p.maxAuthTimes ≤ c.authTimes then
      ⟨c, [.addUserIntoTempList c.username p.blockAuthFail, .reply (.code .code2170006)],
        .shouldClose⟩
    else ⟨c, [.reply (.around .code2170014 reason)], .goOn⟩
  | (.ok (), maildir) =>
    let create := if s.cdn.isSome ∧ bCdnCreate then [Output.createCdnUser c.username] else []
    let c := { c with maildir, array := [], totalSize := 0 }
    if maildir = [] then ⟨c, create ++ [.reply (.code .code2170015)], .goOn⟩
    else
      match s.listMail with
      | .ok units number size =>
        if (units.length : ℤ) ≠ number then
          ⟨{ c with array := unitsOf units, totalMail := number, totalSize := size },
            create ++ [.reply (.code .code2170022)], .goOn⟩
        else ⟨c.login (unitsOf units) number size, create ++ [.reply (.code .code2170000)], .goOn⟩
      | .noServer | .rdwrError | .resultError => ⟨c, create, .shouldClose⟩

/-- Where there is a CDN, the context is one of it whatever comes of that. -/
def enter (password : Bytes) : Outcome :=
  match s.cdn with
  | none => normalLogin p s password c false
  | some cdn =>
    let c := { c with isCdn := true }
    if cdn.checkUser c.username = false then normalLogin p s password c true
    else if cdn.authUser c.username password = false then normalLogin p s password c false
    else
      match cdn.listMail with
      | none => normalLogin p s password { c with array := [] } false
      | some units =>
        let array := c.array ++ unitsOf units
        (c.login array array.length ((c.totalSize + (array.map (·.size)).sum) % 2 ^ 64)).answer
          .code2170000

def cmdPass : Outcome :=
  if cmdLine.length ≤ 5 ∨ 260 < cmdLine.length then c.answer .code2170004
  else if cmdLine[4]? ≠ some 32 then c.answer .code2170003
  else if c.isLogin then c.answer .code2170020
  else if c.username = [] then c.answer .code2170005
  else enter p s c (ltrimString (cmdLine.drop 5))

def cmdStat : Outcome :=
  if cmdLine.length ≠ 4 then c.answer .code2170004
  else if c.isLogin = false then c.answer .code2170008
  else ⟨c, [.reply (.text (bytes "+OK " ++ formatInt c.totalMail ++ bytes " " ++
    decimal c.totalSize ++ bytes "\r\n"))], .goOn⟩

/-- The number behind the command. -/
def numberOf : ℤ := atoi ((rtrimString cmdLine).drop 5)

/-- The message with that number, where there is one. -/
def withMessage (number : ℤ) (handle : ℕ → MsgUnit → Outcome) : Outcome :=
  if 0 < number then
    match c.array[number.toNat - 1]? with
    | some unit => handle (number.toNat - 1) unit
    | none => c.answer .code2170007
  else c.answer .code2170007

/-- `%ld` of a `size_t`. -/
def sizeText (size : ℕ) : Bytes := formatInt ((size : ℤ).bmod (2 ^ 64))

/-- `UIDL` and `LIST`, of all messages or of one. -/
def listMessages (text : MsgUnit → Bytes) : Outcome :=
  let command := rtrimString cmdLine
  if command.length = 4 then
    if c.isLogin = false then c.answer .code2170008
    else ⟨c, [.listing (bytes "+OK\r\n" ++ (c.array.zipIdx 1).flatMap (fun u =>
      decimal u.2 ++ bytes " " ++ text u.1 ++ bytes "\r\n") ++ bytes ".\r\n")], .list⟩
  else if command[4]? ≠ some 32 then c.answer .code2170003
  else if c.isLogin = false then c.answer .code2170008
  else withMessage c (numberOf cmdLine) fun i unit =>
    ⟨c, [.reply (.text (bytes "+OK " ++ decimal (i + 1) ++ bytes " " ++ text unit ++
      bytes "\r\n"))], .goOn⟩

def cmdUidl : Outcome := listMessages cmdLine c MsgUnit.fileName

def cmdList : Outcome := listMessages cmdLine c fun unit => sizeText unit.size

/-- `RETR`, `DELE` and `TOP` copy the line into 256 bytes. -/
def ofMessage (shortest : ℕ) (handle : Outcome) : Option Outcome :=
  if 256 ≤ cmdLine.length then none
  else
    let command := rtrimString cmdLine
    if command.length ≤ shortest then some (c.answer .code2170004)
    else if command[shortest - 1]? ≠ some 32 then some (c.answer .code2170003)
    else if c.isLogin = false then some (c.answer .code2170008)
    else some handle

/-- The message is opened, and its first part is read. -/
def retrieve (number : ℤ) : Outcome :=
  withMessage c number fun _ unit =>
    if s.opens = false then c.answer .code2170009
    else if s.retrieves = false then c.answer .code2170019
    else ⟨c, [.retrieve (c.filePath p unit.fileName)], .data⟩

def cmdRetr : Option Outcome :=
  ofMessage cmdLine c 5
    (retrieve p s { c with curLine := -1, untilLine := 0x7FFFFFFF } (numberOf cmdLine))

def cmdDele : Option Outcome :=
  ofMessage cmdLine c 5 (withMessage c (numberOf cmdLine) fun i unit =>
    if unit.bDeleted then c.answer .code2170000
    else
      { c with
        array := c.array.set i { unit with bDeleted := true }
        list := c.list ++ [i] }.answer .code2170000)

/-- The number of the message, and how many lines of its text are wanted. -/
def topNumbers : ℤ × ℤ :=
  let buff := ltrimString ((rtrimString cmdLine).drop 4)
  let first := buff.takeWhile (· != 32)
  if first.length = buff.length then (atoi buff, 0x7FFFFFFF)
  else (atoi first, atoi (buff.drop (first.length + 1)))

def cmdTop : Option Outcome :=
  ofMessage cmdLine c 4
    (retrieve p s { c with curLine := -1, untilLine := (topNumbers cmdLine).2 }
      (topNumbers cmdLine).1)

/-- The messages of a deleted list are told of, and their files are removed. -/
def removeListed (path : Bytes → Bytes) : List Output :=
  .broadcastEvent ((bytes "FOLDER-TOUCH " ++ c.username ++ bytes " inbox").take 1023) ::
    c.listed.map fun fileName => .remove (path fileName)

/-- The last reply. -/
def farewell (outputs : List Output) : Outcome :=
  ⟨{ c with array := [], list := [] }, outputs ++ [.reply (.around .code2170010 s.hostId)],
    .shouldClose⟩

def normalDelete (before : List Output) : Outcome :=
  let asked := before ++ [.deleteMail c.maildir c.listed]
  match s.deleteMail with
  | .ok => farewell s c (asked ++ removeListed c (Pop3Context.path c.maildir (bytes "/eml/")))
  | .noServer => ⟨c, asked ++ [.reply (.code .code2170016)], .shouldClose⟩
  | .rdwrError => ⟨c, asked ++ [.reply (.code .code2170021)], .shouldClose⟩
  | .resultError => ⟨c, asked ++ [.reply (.code .code2170022)], .shouldClose⟩

def cmdQuit : Outcome :=
  if cmdLine.length ≠ 4 then c.answer .code2170004
  else if c.isLogin ∧ c.list ≠ [] then
    if c.isCdn then
      let asked := [Output.deleteCdnMail c.username c.listed]
      if s.deleteCdnMail then farewell s c (asked ++ removeListed c (c.filePath p))
      else normalDelete s c asked
    else normalDelete s c []
  else farewell s c []

/-- `b_deleted` is taken back for each node that is taken out of the list. -/
def restore (array : List MsgUnit) (list : List ℕ) : List MsgUnit :=
  list.foldl (fun array i => array.modify i fun unit => { unit with bDeleted := false }) array

def cmdRset : Outcome :=
  if cmdLine.length ≠ 4 then c.answer .code2170004
  else if c.isLogin then { c with array := restore c.array c.list, list := [] }.answer .code2170000
  else c.answer .code2170000

def cmdNoop : Outcome :=
  if cmdLine.length ≠ 4 then c.answer .code2170004 else c.answer .code2170000

def cmdElse : Outcome := c.answer .code2170003

inductive Command
  | capa | stls | user | pass | stat | uidl | list | retr | rset | noop | dele | top | quit | other
  deriving DecidableEq

/-- The comparisons of `pop3_parser_dispatch_cmd`, in their order. -/
def command : Command :=
  if casePrefix (bytes "CAPA") cmdLine then .capa
  else if casePrefix (bytes "STLS") cmdLine then .stls
  else if casePrefix (bytes "USER") cmdLine then .user
  else if casePrefix (bytes "PASS") cmdLine then .pass
  else if casePrefix (bytes "STAT") cmdLine then .stat
  else if casePrefix (bytes "UIDL") cmdLine then .uidl
  else if casePrefix (bytes "LIST") cmdLine then .list
  else if casePrefix (bytes "RETR") cmdLine then .retr
  else if casePrefix (bytes "RSET") cmdLine then .rset
  else if casePrefix (bytes "NOOP") cmdLine then .noop
  else if casePrefix (bytes "DELE") cmdLine then .dele
  else if casePrefix (bytes "TOP") cmdLine then .top
  else if casePrefix (bytes "QUIT") cmdLine then .quit
  else .other

/-- `pop3_parser_dispatch_cmd`; `none` where a buffer is overrun. -/
def dispatchCmd : Option Outcome :=
  match command cmdLine with
  | .capa => some (cmdCapa c)
  | .stls => some (cmdStls p c)
  | .user => some (cmdUser p s cmdLine c)
  | .pass => some (cmdPass p s cmdLine c)
  | .stat => some (cmdStat cmdLine c)
  | .uidl => some (cmdUidl cmdLine c)
  | .list => some (cmdList cmdLine c)
  | .retr => cmdRetr p s cmdLine c
  | .rset => some (cmdRset cmdLine c)
  | .noop => some (cmdNoop cmdLine c)
  | .dele => cmdDele cmdLine c
  | .top => cmdTop p s cmdLine c
  | .quit => some (cmdQuit p s cmdLine c)
  | .other => some (cmdElse c)

end Commands

/-! ### The connection -/

/-- What the process does next: it reads, writes a listing or a message, or is done. -/
inductive Phase
  | reading | writing | closed
  deriving DecidableEq

structure Connection where
  context : Pop3Context
  readBuffer : Bytes
  phase : Phase
  deriving DecidableEq

inductive Event
  /-- What comes of `SSL_accept`. -/
  | handshake (ok : Bool) (s : SystemServices)
  /-- The rest of what was to be written is written, or no more can be retrieved. -/
  | written
  /-- The connection is lost, or has timed out. -/
  | lost
  /-- What `read` returns. -/
  | received (bytes : Bytes) (s : SystemServices)

/-- The line that is executed in a step, and what the step brings out. -/
structure Record where
  line : Option Bytes
  outputs : List Output
  deriving DecidableEq

/-- The bytes up to a line break, and those behind. -/
def splitLine : Bytes → Option (Bytes × Bytes)
  | [] => none
  | c :: rest =>
    if c = 13 ∧ rest.head? = some 10 then some ([], rest.tail)
    else (splitLine rest).map fun y => (c :: y.1, y.2)

/-- The copy of a line, trimmed at both ends. -/
def tempCommand (line : Bytes) : Bytes := rtrimString (ltrimString (cstr line))

namespace Connection

/-- `pop3_parser_context_clear` comes at the beginning and at the end. -/
def start (onSslPort : Bool) : Connection :=
  ⟨⟨onSslPort, false, onSslPort, false, false, 0, [], [], [], [], 0, 0, -1, 0x7FFFFFFF⟩, [],
    .reading⟩

def close (n : Connection) : Connection := { n with phase := .closed }

def after : Dispatch → Phase
  | .goOn => .reading
  | .shouldClose => .closed
  | .data | .list => .writing

/-- The bytes that come are put behind those that have been left, and the first line is executed;
the other lines wait for the next bytes. -/
def receive (p : Params) (s : SystemServices) (n : Connection) (bytes : Bytes) :
    Option (Connection × Record) :=
  let buffer := n.readBuffer ++ bytes
  match splitLine buffer with
  | some (line, rest) =>
    (dispatchCmd p s (tempCommand line) n.context).map fun o =>
      (⟨o.context, rest, after o.dispatch⟩, ⟨some (tempCommand line), o.outputs⟩)
  | none =>
    if buffer.length = 1024 then
      some ({ n with readBuffer := [] }, ⟨none, [.reply (.code .code2170002)]⟩)
    else some ({ n with readBuffer := buffer }, ⟨none, []⟩)

/-- `pop3_parser_process` -/
def step (p : Params) (n : Connection) : Event → Option (Connection × Record)
  | .handshake ok s =>
    if n.phase = .closed ∨ n.context.isStls = false then none
    else if ok then
      some ({ n with context := { n.context with ssl := true, isStls := false } },
        ⟨none, if n.context.onSslPort then [.reply (.around .code2170011 s.hostId)] else []⟩)
    else some (n.close, ⟨none, []⟩)
  | .written =>
    if n.phase ≠ .writing ∨ n.context.isStls then none
    else some ({ n with phase := .reading }, ⟨none, []⟩)
  | .lost => if n.phase = .closed then none else some (n.close, ⟨none, []⟩)
  | .received bytes s =>
    if n.phase ≠ .reading ∨ n.context.isStls then none
    else if bytes = [] ∨ 1024 < n.readBuffer.length + bytes.length then none
    else n.receive p s bytes

end Connection

end SteepSystem.Pop3
