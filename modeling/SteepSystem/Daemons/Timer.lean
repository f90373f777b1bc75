import SteepSystem.Daemons.ListFile

/-!
The timers of `SYSTEM_ADMIN/timer/main.c`: the list in memory and the list file, which gets a line
for each timer that is added and one for each that ends. Undefined behaviour has no result.
-/

namespace SteepSystem.Daemons.Timer

open SteepSystem.Lib.CStrings SteepSystem.Daemons.ListFile

/-- What `execute_timer` writes of a command. -/
inductive Outcome
  | done
  | execFailure
  | failToWait
  | failToFork
  | formatError
  deriving DecidableEq

def Outcome.result : Outcome → List UInt8
  | done => bytes "DONE"
  | execFailure => bytes "EXEC-FAILURE"
  | failToWait => bytes "FAIL-TO-WAIT"
  | failToFork => bytes "FAIL-TO-FORK"
  | formatError => bytes "FORMAT-ERROR"

/-- `g_exec_list`, `g_last_tid` and the list file. -/
structure Service where
  execList : List Timer
  lastTid : ℤ
  listFile : List UInt8
  deriving DecidableEq

/-- What can be seen of a step; `added` is the reply `TRUE` with the identifier. -/
inductive Output
  | added (t : Timer)
  | executed (t : Timer)
  | cancelled (t : Timer)
  | reply (line : String)
  deriving DecidableEq

/-- The identifier that is handed out. -/
def Output.handedOut : Output → Option ℤ
  | added t => some t.tId
  | _ => none

/-- The timer that is executed or cancelled. -/
def Output.ended : Output → Option ℤ
  | executed t | cancelled t => some t.tId
  | _ => none

inductive Event
  /-- A line of a client, at the time `now`. -/
  | line (line : List UInt8) (now : ℕ) (allocates : Bool)
  /-- A turn of the loop of `main`. -/
  | tick (now : ℤ) (outcome : Timer → Outcome)
  /-- Every week; `opens`: both files can be read and written. -/
  | compact (opens : Bool)
  /-- `allocates`: there is memory for the item. -/
  | restart (allocates : ℕ → Bool)

/-! ### The List File -/

/-- A line in a buffer of `size` bytes. -/
def formatLine (size : ℕ) (t : Timer) : Option (List UInt8) :=
  if (format t).length < size then some (format t ++ [10]) else none

/-- The line for a timer that has ended. -/
def endLine (tId : ℤ) (result : List UInt8) : List UInt8 :=
  formatInt tId ++ [9, 48, 9] ++ result ++ [10]

def zero (t : Timer) : Timer := { t with execTime := 0 }

/-- The inner loop over the items: the first other one with the identifier is settled. -/
def zeroFirst (i : ℕ) (tId : ℤ) (items : List Timer) : List Timer :=
  match (List.range items.length).find? fun j => i != j && (items[j]?).any (·.tId == tId) with
  | some j => items.modify j zero
  | none => items

/-- One turn of the outer loop. -/
def settleAt (items : List Timer) (i : ℕ) : List Timer :=
  match items[i]? with
  | some t => if t.execTime = 0 then zeroFirst i t.tId items else items
  | none => items

def settle (items : List Timer) : List Timer := (List.range items.length).foldl settleAt items

def putTimer (execList : List Timer) (t : Timer) : List Timer :=
  match execList with
  | [] => [t]
  | u :: execList => if t.execTime < u.execTime then t :: u :: execList else u :: putTimer execList t

/-- The start of the service, as far as the timers go. -/
def restore (allocates : ℕ → Bool) (listFile : List UInt8) : Service :=
  let items := settle (listItems listFile)
  { execList := items.zipIdx.foldl (fun execList p =>
      if p.1.execTime ≠ 0 ∧ allocates p.2 then putTimer execList p.1 else execList) []
    lastTid := items.foldl (fun lastTid t => if lastTid < t.tId then t.tId else lastTid) 0
    listFile }

/-- The loop over the due timers: it leaves out the next one after each that it executes. -/
def executeDue (now : ℤ) : List Timer → List Timer × List Timer
  | [] => ([], [])
  | [t] => if now < t.execTime then ([], [t]) else ([t], [])
  | t :: u :: execList =>
    if now < t.execTime then ([], t :: u :: execList)
    else
      let r := executeDue now execList
      (t :: r.1, u :: r.2)

namespace Service

/-- The branch for `ADD`, behind its checks. -/
def add (s : Service) (execInterval : ℤ) (command : List UInt8) (now : ℕ) :
    Option (Service × List Output) :=
  let t : Timer := ⟨s.lastTid + 1, execInterval + now, command⟩
  if t.tId < 2 ^ 31 ∧ t.execTime < 2 ^ 63 then
    (formatLine 1024 t).map fun line =>
      (⟨putTimer s.execList t, t.tId, s.listFile ++ line⟩, [.added t])
  else none

/-- The branch for `CANCEL`, behind its check. -/
def cancel (s : Service) (tId : ℤ) : Service × List Output :=
  match s.execList.find? (·.tId == tId) with
  | some t => ({ s with
      execList := s.execList.eraseP (·.tId == tId)
      listFile := s.listFile ++ endLine t.tId (bytes "CANCEL") },
      [.cancelled t, .reply "TRUE\r\n"])
  | none => (s, [.reply "FALSE 2\r\n"])

/-- `thread_work_func` on a line. -/
def command (s : Service) (line : List UInt8) (now : ℕ) (allocates : Bool) :
    Option (Service × List Output) :=
  let line := cstr line
  if casePrefix (bytes "CANCEL ") line then
    let tId := atoi (line.drop 7)
    if tId ≤ 0 then some (s, [.reply "FALSE 1\r\n"]) else some (s.cancel tId)
  else if casePrefix (bytes "ADD ") line then
    let line := line.drop 4
    if 32 ∉ line then some (s, [.reply "FALSE 1\r\n"])
    else
      let execInterval := atoi (line.takeWhile (· != 32))
      let pspace := (line.dropWhile (· != 32)).tail
      if execInterval ≤ 0 ∨ 512 ≤ pspace.length then some (s, [.reply "FALSE 2\r\n"])
      else if allocates then s.add execInterval pspace now
      else some (s, [.reply "FALSE 3\r\n"])
  else if caseEq line (bytes "QUIT") then some (s, [.reply "BYE\r\n"])
  else if caseEq line (bytes "PING") then some (s, [.reply "TRUE\r\n"])
  else some (s, [.reply "FALSE\r\n"])

def tick (s : Service) (now : ℤ) (outcome : Timer → Outcome) : Service × List Output :=
  let r := executeDue now s.execList
  ({ s with
    execList := r.2
    listFile := s.listFile ++ r.1.flatMap fun t => endLine t.tId (outcome t).result },
    r.1.map .executed)

def compact (s : Service) (opens : Bool) : Option Service :=
  if opens then
    let items := (settle (listItems s.listFile)).filter (·.execTime ≠ 0)
    (items.mapM (formatLine 2048)).map fun lines => { s with listFile := lines.flatten }
  else some s

def step (s : Service) : Event → Option (Service × List Output)
  | .line line now allocates => s.command line now allocates
  | .tick now outcome => some (s.tick now outcome)
  | .compact opens => (s.compact opens).map fun s => (s, [])
  | .restart allocates => some (restore allocates s.listFile, [])

end Service

end SteepSystem.Daemons.Timer
