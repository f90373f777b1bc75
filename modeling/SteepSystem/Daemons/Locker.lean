import SteepSystem.HashTable
import SteepSystem.Lib.CStrings
import SteepSystem.Lib.FifoLocks

/-!
The lock service of `SYSTEM_ADMIN/locker/main.c`. A step is what one thread does up to the end
of its next critical section of `g_hash_lock`, or outside of it up to its next call of
`read_mark`; each connection has a thread of its own, which ends while the connection waits.
-/

namespace SteepSystem.Daemons.Locker

open SteepSystem.Lib.CStrings SteepSystem.Lib.FifoLocks

/-- A `CONNECTION_NODE`, by its address. -/
abbrev Connection := ℕ

/-- The name of a lock, cut at 255 bytes. -/
abbrev Resource := List UInt8

/-- What the thread does after `unlock_resource`. -/
inductive After
  | unlock
  | quit
  | expired
  | hangup
  deriving DecidableEq

/-- Where the thread of a connection stands. -/
inductive Phase
  /-- There is no such connection. -/
  | closed
  | reading
  /-- `str_hash_add` has failed, for the first time at `since`. -/
  | retrying (since : ℤ)
  /-- The node is in the list of the resource, and the thread has ended. -/
  | waiting
  /-- `unlock_resource` has taken the node from the list, and its thread is not there yet. -/
  | granted
  /-- In `unlock_resource`, behind the critical section, with the node that it has taken. -/
  | handing (next : Connection) (after : After)
  /-- Behind `unlock_resource`. -/
  | unlocked (after : After)
  deriving DecidableEq

/-- `CONNECTION_NODE`, without the socket and the buffers of `read_mark`. -/
structure Node where
  resource : Resource := []
  isLocking : Bool := false
  lockTime : ℤ := 0
  phase : Phase := .closed
  deriving DecidableEq

/-- `g_hash_table` and the nodes. -/
structure Service where
  table : HashTable Resource (List Connection)
  node : Connection → Node

/-- What can be seen of a step: what happens to a lock, and the lines written to a client. -/
inductive Output
  | move (m : Move Resource Connection)
  | reply (c : Connection) (line : String)
  deriving DecidableEq

def Output.move? : Output → Option (Move Resource Connection)
  | move m => some m
  | reply _ _ => none

/-- `now` is what `time` gives and `allocates` what `lib_buffer_get` gives, if they are called. -/
inductive Event
  /-- `accept_work_func` makes the node and a thread of the pool takes it. -/
  | connect (c : Connection)
  /-- `read_mark` gives a line. -/
  | line (c : Connection) (line : List UInt8) (now : ℤ) (allocates : Bool)
  /-- `read_mark` fails: the client has gone, is silent or sends no end of line. -/
  | hangup (c : Connection)
  | retry (c : Connection) (now : ℤ) (allocates : Bool)
  /-- `unlock_resource` sets the waiting node and creates its thread. -/
  | handOver (c : Connection) (now : ℤ)
  | proceed (c : Connection)

/-- `str_hash_add` where the buffer pool may be out of memory. -/
def strHashAdd (ptbl : HashTable Resource (List Connection)) (allocates : Bool) (key : Resource) :
    ℤ × HashTable Resource (List Connection) :=
  if ptbl.items.length < ptbl.capacity ∧ allocates = false then (-3, ptbl) else ptbl.add key []

namespace Service

def start (tableSize : ℕ) : Service := ⟨.init tableSize, fun _ => {}⟩

def set (s : Service) (c : Connection) (n : Node) : Service :=
  { s with node := Function.update s.node c n }

/-- The connection has got a new entry for its resource. -/
def acquire (s : Service) (c : Connection) (resource : Resource) (now : ℤ)
    (table : HashTable Resource (List Connection)) : Service × List Output :=
  let s := { s with table }
  (s.set c { resource, isLocking := true, lockTime := now, phase := .reading },
    [.move (.acquired resource c), .reply c "TRUE\r\n"])

/-- The branch for `LOCK` of `thread_work_func`. -/
def lock (s : Service) (c : Connection) (resource : Resource) (now : ℤ) (allocates : Bool) :
    Service × List Output :=
  match s.table.query resource with
  | none =>
    let (result, table) := strHashAdd s.table allocates resource
    if result = 1 then s.acquire c resource now table
    else (s.set c { s.node c with resource, phase := .retrying now }, [])
  | some plist =>
    let s := { s with table := s.table.store resource (plist ++ [c]) }
    (s.set c { s.node c with resource, phase := .waiting }, [.move (.queued resource c)])

/-- `unlock_resource` up to the end of its critical section; it reads through a null pointer if
there is no entry. -/
def unlockResource (s : Service) (c : Connection) (after : After) : Option (Service × List Output) :=
  let n := s.node c
  match s.table.query n.resource with
  | none => none
  | some [] =>
    let s := { s with table := s.table.remove n.resource }
    some (s.set c { n with phase := .unlocked after }, [.move (.released n.resource)])
  | some (next :: plist) =>
    let s := { s with table := s.table.store n.resource plist }
    some ((s.set next { s.node next with phase := .granted }).set c
      { n with phase := .handing next after }, [.move (.passed n.resource next)])

def close (s : Service) (c : Connection) : Service := s.set c { s.node c with phase := .closed }

variable (maxInterval : ℤ)

/-- `thread_work_func` on a line; `maxInterval` is `g_max_interval`. -/
def command (s : Service) (c : Connection) (line : List UInt8) (now : ℤ) (allocates : Bool) :
    Option (Service × List Output) :=
  let n := s.node c
  let line := cstr line
  if n.isLocking then
    if caseEq line (bytes "UNLOCK") then s.unlockResource c .unlock
    else if caseEq line (bytes "QUIT") then s.unlockResource c .quit
    else if maxInterval ≤ now - n.lockTime then s.unlockResource c .expired
    else some (s, [.reply c "FALSE\r\n"])
  else if casePrefix (bytes "LOCK ") line && 5 < line.length then
    some (s.lock c ((line.drop 5).take 255) now allocates)
  else if caseEq line (bytes "PING") then some (s, [.reply c "TRUE\r\n"])
  else if caseEq line (bytes "QUIT") then some (s.close c, [.reply c "BYE\r\n"])
  else some (s, [.reply c "FALSE\r\n"])

/-- `thread_work_func` behind a call of `unlock_resource`. -/
def proceed (s : Service) (c : Connection) : After → Service × List Output
  | .unlock => (s.set c { s.node c with isLocking := false, phase := .reading },
      [.reply c "TRUE\r\n"])
  | .quit => (s.close c, [.reply c "BYE\r\n"])
  | .expired => (s.set c { s.node c with isLocking := false, phase := .reading },
      [.reply c "FALSE\r\n"])
  | .hangup => (s.close c, [])

def step (s : Service) : Event → Option (Service × List Output)
  | .connect c =>
    if (s.node c).phase = .closed then
      some (s.set c { s.node c with isLocking := false, phase := .reading }, [.reply c "OK\r\n"])
    else none
  | .line c line now allocates =>
    if (s.node c).phase = .reading then s.command maxInterval c line now allocates else none
  | .hangup c =>
    if (s.node c).phase = .reading then
      if (s.node c).isLocking then s.unlockResource c .hangup else some (s.close c, [])
    else none
  | .retry c now allocates =>
    match (s.node c).phase with
    | .retrying since =>
      let (result, table) := strHashAdd s.table allocates (s.node c).resource
      if result = 1 then some (s.acquire c (s.node c).resource now table)
      else if maxInterval ≤ now - since then some (s.close c, [])
      else some (s, [])
    | _ => none
  | .handOver c now =>
    match (s.node c).phase with
    | .handing next after =>
      let s' := s.set next { s.node next with isLocking := true, lockTime := now, phase := .reading }
      some (s'.set c { s'.node c with phase := .unlocked after }, [.reply next "TRUE\r\n"])
    | _ => none
  | .proceed c =>
    match (s.node c).phase with
    | .unlocked after => some (s.proceed c after)
    | _ => none

end Service

/-- The connection holds the resource: until `unlock_resource` has given it up, which is before
`is_locking` is cleared, and again from the moment it has been taken from the list. -/
def Node.Holds (n : Node) (r : Resource) : Prop :=
  n.resource = r ∧ (n.phase = .granted ∨ n.phase = .reading ∧ n.isLocking)

/-- The connection has asked for the resource and has been put in its list. -/
def Node.Waits (n : Node) (r : Resource) : Prop := n.resource = r ∧ n.phase = .waiting

end SteepSystem.Daemons.Locker
